import SealedStore.Json.Basic
/-!
# Tokens of JSON texts

The blanks, strings, numbers and words that a text is made of.  Every function takes the bytes from
where it starts and gives the bytes that it leaves.
-/
namespace SealedStore.Json

/-- The blanks between tokens. -/
def isBlank (b : UInt8) : Bool := b == 32 || b == 9 || b == 10 || b == 13

/-- The text behind its leading blanks. -/
def skipBlanks (b : Bytes) : Bytes := b.dropWhile isBlank

/-- A decimal digit. -/
def isDigit (b : UInt8) : Bool := decide (48 ≤ b) && decide (b ≤ 57)

/-- The number that a run of digits denotes. -/
def number (b : Bytes) : Nat := b.foldl (fun n d => n * 10 + (d.toNat - 48)) 0

/-- The value of a hexadecimal digit. -/
def hexValue? (b : UInt8) : Option Nat :=
  if isDigit b then some (b.toNat - 48)
  else if 97 ≤ b ∧ b ≤ 102 then some (b.toNat - 87)
  else if 65 ≤ b ∧ b ≤ 70 then some (b.toNat - 55)
  else none

/-! ## Strings -/

/-- A piece of a string literal: a byte, or a unit of UTF-16 written as an escape. -/
inductive Piece where
  | byte (b : UInt8)
  | unit (u : Nat)

/-- The byte that a one-letter escape stands for. -/
def escaped? (b : UInt8) : Option UInt8 :=
  if b = 34 then some 34
  else if b = 92 then some 92
  else if b = 47 then some 47
  else if b = 98 then some 8
  else if b = 102 then some 12
  else if b = 110 then some 10
  else if b = 114 then some 13
  else if b = 116 then some 9
  else none

/-- The unit of four hexadecimal digits. -/
def unit? (a b c d : UInt8) : Option Nat := do
  let a ← hexValue? a
  let b ← hexValue? b
  let c ← hexValue? c
  let d ← hexValue? d
  some (((a * 16 + b) * 16 + c) * 16 + d)

/-- The pieces of a literal up to its closing quote, and what follows it. -/
def scanString : Bytes → Option (List Piece × Bytes)
  | [] => none
  | b :: r =>
    if b = 34 then some ([], r)
    else if b = 92 then
      match r with
      | [] => none
      | e :: r =>
        if e = 117 then
          match r with
          | a :: b :: c :: d :: r => do
            let u ← unit? a b c d
            let (ps, rest) ← scanString r
            some (.unit u :: ps, rest)
          | _ => none
        else do
          let x ← escaped? e
          let (ps, rest) ← scanString r
          some (.byte x :: ps, rest)
    else if b < 32 then none
    else do
      let (ps, rest) ← scanString r
      some (.byte b :: ps, rest)

/-- The bytes that the pieces denote; a surrogate must stand in a pair. -/
def joinPieces : List Piece → Option Bytes
  | [] => some []
  | .byte b :: r => (joinPieces r).map (b :: ·)
  | .unit u :: .unit v :: r =>
    if 0xD800 ≤ u ∧ u < 0xDC00 then
      if 0xDC00 ≤ v ∧ v < 0xE000 then
        (joinPieces r).map
          (String.utf8EncodeChar (Char.ofNat (0x10000 + (u - 0xD800) * 0x400 + (v - 0xDC00))) ++ ·)
      else none
    else if 0xDC00 ≤ u ∧ u < 0xE000 then none
    else (joinPieces (.unit v :: r)).map (String.utf8EncodeChar (Char.ofNat u) ++ ·)
  | .unit u :: r =>
    if 0xD800 ≤ u ∧ u < 0xE000 then none
    else (joinPieces r).map (String.utf8EncodeChar (Char.ofNat u) ++ ·)

/-- What a string literal denotes, and what follows its closing quote. -/
def readString (b : Bytes) : Option (Option String × Bytes) :=
  (scanString b).map fun (ps, rest) => ((joinPieces ps).bind Bytes.toText?, rest)

/-! ## Numbers -/

/-- A run of at least one digit, and what follows it. -/
def readDigits (b : Bytes) : Option (Bytes × Bytes) :=
  let ds := b.takeWhile isDigit
  if ds = [] then none else some (ds, b.dropWhile isDigit)

/-- The whole part: a zero alone, or digits that start with another. -/
def readWhole (b : Bytes) : Option (Bytes × Bytes) := do
  let (ds, r) ← readDigits b
  if ds.head? = some 48 ∧ ds.length ≠ 1 then none else some (ds, r)

/-- The digits behind a point, if there is one. -/
def readFraction : Bytes → Option (Bytes × Bytes)
  | 46 :: r => readDigits r
  | r => some ([], r)

/-- The exponent, if there is one. -/
def readExponent : Bytes → Option (Option Int × Bytes)
  | [] => some (none, [])
  | e :: r =>
    if e = 101 ∨ e = 69 then
      match r with
      | 45 :: r => (readDigits r).map fun (ds, r) => (some (-(number ds : Int)), r)
      | 43 :: r => (readDigits r).map fun (ds, r) => (some (number ds : Int), r)
      | r => (readDigits r).map fun (ds, r) => (some (number ds : Int), r)
    else some (none, e :: r)

/-- A number, and what follows it. -/
def readNumber (b : Bytes) : Option (Json × Bytes) := do
  let (negative, b) := match b with
    | 45 :: r => (true, r)
    | r => (false, r)
  let (whole, b) ← readWhole b
  let (fraction, b) ← readFraction b
  let (exponent, b) ← readExponent b
  if !negative && fraction.isEmpty && exponent.isNone then some (natural (number whole), b)
  else some (decimal ⟨negative, number (whole ++ fraction), exponent.getD 0 - fraction.length⟩, b)

/-! ## Words -/

/-- The text behind a fixed word. -/
def readWord (word : Bytes) (b : Bytes) : Option Bytes :=
  if b.take word.length = word then some (b.drop word.length) else none

end SealedStore.Json
