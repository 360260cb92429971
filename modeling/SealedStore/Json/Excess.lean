import SealedStore.Json.Token
/-!
# Items in excess

An array that gives a byte string of a fixed length may end in one item more, if that item does not
read as a byte.  The item is read only until this is seen: a word or a string up to where it breaks
off, a number up to where it is no number any more, and nothing of anything else.  The closing
bracket must follow at once.
-/
namespace SealedStore.Json.Excess

/-- What follows a word, or the first byte that is not of it. -/
def skipWord : (word : Bytes) → Bytes → Option Bytes
  | [], b => some b
  | _ :: _, [] => none
  | w :: ws, c :: r => if c = w then skipWord ws r else some r

/-- What follows a string, or the place in it where reading stops: behind a control
character, behind an unknown escape, and behind the escape of a surrogate or of what stands
in place of the other half. -/
def skipString : Bytes → Option Bytes
  | [] => none
  | 34 :: r => some r
  | 92 :: 117 :: a :: b :: c :: d :: r =>
    match unit? a b c d with
    | none => some r
    | some u =>
      if 0xDC00 ≤ u ∧ u < 0xE000 then some r
      else if 0xD800 ≤ u ∧ u < 0xDC00 then
        match r with
        | 92 :: 117 :: a :: b :: c :: d :: r =>
          if (unit? a b c d).any fun v => 0xDC00 ≤ v ∧ v < 0xE000 then skipString r else some r
        | 92 :: 117 :: _ => none
        | 92 :: _ :: r => some r
        | _ :: r => some r
        | [] => none
      else skipString r
  | 92 :: 117 :: _ => none
  | 92 :: e :: r => if (escaped? e).isSome then skipString r else some r
  | b :: r => if b < 32 then some r else skipString r

/-- What follows the digits of an exponent, or the digit that takes it above 31 bits. -/
def skipPower : (value : Nat) → Bytes → Bytes
  | _, [] => []
  | v, c :: r =>
    if isDigit c then
      let v := v * 10 + (c.toNat - 48)
      if v < Nat.pow 2 31 then skipPower v r else r
    else c :: r

/-- What follows an exponent, if there is one.  No exponent is too large for zero, and
none below zero is. -/
def skipExponent (zero : Bool) : Bytes → Option Bytes
  | [] => some []
  | e :: r =>
    if e = 101 ∨ e = 69 then
      let below := r.head? = some 45
      match if below || r.head? = some 43 then r.drop 1 else r with
      | [] => none
      | c :: r =>
        if !isDigit c then some r
        else if zero || below then some (r.dropWhile isDigit)
        else some (skipPower 0 (c :: r))
    else some (e :: r)

/-- What follows the digits of a number and what belongs to it.  A byte is refused, and so
are zeros in front. -/
def skipDigits (negative : Bool) (b : Bytes) : Option Bytes :=
  let ds := b.takeWhile isDigit
  if ds.head? = some 48 ∧ ds.length ≠ 1 then none
  else match b.dropWhile isDigit with
    | 46 :: r =>
      let fs := r.takeWhile isDigit
      if fs = [] then some r else skipExponent (number (ds ++ fs) = 0) (r.dropWhile isDigit)
    | e :: r =>
      if e = 101 ∨ e = 69 then skipExponent (number ds = 0) (e :: r)
      else if !negative && number ds < 256 then none
      else some (e :: r)
    | [] => none

/-- What follows a number.  A minus sign takes the next byte with it. -/
def skipNumber : Bytes → Option Bytes
  | 45 :: c :: r => if isDigit c then skipDigits true (c :: r) else some r
  | 45 :: [] => none
  | b => skipDigits false b

/-- What follows an item that does not read as a byte, as far as it is read. -/
def skipItem (b : Bytes) : Option Bytes :=
  match b with
  | [] => none
  | c :: r =>
    if c = 110 then skipWord [117, 108, 108] r
    else if c = 116 then skipWord [114, 117, 101] r
    else if c = 102 then skipWord [97, 108, 115, 101] r
    else if c = 34 then skipString r
    else if c = 45 || isDigit c then skipNumber (c :: r)
    else some (c :: r)

/-- What follows the array, behind the comma in front of the item. -/
def close? (b : Bytes) : Option Bytes := do
  match skipBlanks (← skipItem (skipBlanks b)) with
  | 93 :: rest => some rest
  | _ => none

end SealedStore.Json.Excess
