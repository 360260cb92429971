import SealedStore.Json.Basic
/-!
# Quantities

The numbers of a transaction are written as the fewest hexadecimal digits behind `0x`.  They are
read from plain JSON numbers of up to 64 bits and from texts in base two, eight, ten or sixteen, in
which underscores are passed over.
-/
namespace SealedStore.Quantity

/-- The written form of a number. -/
def text (n : Nat) : String := String.ofList ('0' :: 'x' :: Nat.toDigits 16 n)

/-- The value of a letter or digit, in either case. -/
def digitValue? (c : Char) : Option Nat :=
  if '0' ≤ c ∧ c ≤ '9' then some (c.toNat - 48)
  else if 'a' ≤ c ∧ c ≤ 'z' then some (c.toNat - 87)
  else if 'A' ≤ c ∧ c ≤ 'Z' then some (c.toNat - 55)
  else none

/-- The number that digits of a base denote, after a value already read. -/
def readFrom (base : Nat) : (value : Nat) → List Char → Option Nat
  | v, [] => some v
  | v, c :: r =>
    if c = '_' then readFrom base v r
    else match digitValue? c with
      | some d => if d < base then readFrom base (v * base + d) r else none
      | none => none

/-- The number that a text denotes; its first two characters may name the base. -/
def read? : List Char → Option Nat
  | '0' :: m :: r =>
    if m = 'x' ∨ m = 'X' then readFrom 16 0 r
    else if m = 'o' ∨ m = 'O' then readFrom 8 0 r
    else if m = 'b' ∨ m = 'B' then readFrom 2 0 r
    else readFrom 10 0 ('0' :: m :: r)
  | r => readFrom 10 0 r

/-- A number of at most `w` bits from a JSON value. -/
def ofJson? (w : Nat) : Json → Option (BitVec w)
  | .natural n => if n < Nat.pow 2 64 ∧ n < Nat.pow 2 w then some (BitVec.ofNat w n) else none
  | .string (some s) => do
    let n ← read? s.toList
    if n < Nat.pow 2 w then some (BitVec.ofNat w n) else none
  | _ => none

/-- A number as a JSON value. -/
def toJson {w : Nat} (v : BitVec w) : Json := .text (text v.toNat)

end SealedStore.Quantity
