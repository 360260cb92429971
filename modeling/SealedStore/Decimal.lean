/-!
# Decimal numbers

Numbers as they are written, and which of them have a double-precision form.  `isFinite` rounds
once, as the nearest number does.  `isInRange` rounds in steps, as a reader does that has 64 bits
for the digits; the two differ only next to the largest number.
-/
namespace SealedStore

/-- A number with a sign, a fraction or an exponent: `mantissa · 10 ^ exponent`. -/
structure Decimal where
  negative : Bool
  mantissa : Nat
  exponent : Int
deriving DecidableEq, Repr

namespace Decimal

/-- The least magnitude that a double-precision number cannot hold after rounding. -/
def doubleLimit : Nat := Nat.pow 2 1024 - Nat.pow 2 970

/-- Whether the number has a double-precision form.  A mantissa of `l` digits times `10 ^ e` lies
between `10 ^ (l + e - 1)` and `10 ^ (l + e)`, so only a few exponents need exact arithmetic. -/
def isFinite (d : Decimal) : Bool :=
  let size : Int := (Nat.toDigits 10 d.mantissa).length + d.exponent
  if d.mantissa = 0 ∨ size ≤ 300 then true
  else if 310 ≤ size then false
  else if d.exponent < 0 then decide (d.mantissa < doubleLimit * Nat.pow 10 d.exponent.natAbs)
  else decide (d.mantissa * Nat.pow 10 d.exponent.natAbs < doubleLimit)

/-- The nearest number of 53 significant bits, or of two the one whose last bit is zero. -/
def rounded (n : Nat) : Nat :=
  let unit := Nat.pow 2 (n.log2 - 52)
  let low := n / unit
  let twice := 2 * (n % unit)
  if twice < unit ∨ (twice = unit ∧ low % 2 = 0) then low * unit else (low + 1) * unit

/-- The longest row of a number's first digits that fits into 64 bits, and how many
digits are left out. -/
def leadingDigits (n : Nat) : Nat × Nat :=
  if n < Nat.pow 2 64 then (n, 0)
  else
    let (m, dropped) := leadingDigits (n / 10)
    (m, dropped + 1)
termination_by n
decreasing_by
  have hlarge : Nat.pow 2 64 ≤ n := Nat.le_of_not_lt ‹_›
  exact Nat.div_lt_self (Nat.lt_of_lt_of_le (by decide) hlarge) (by decide)

/-- Whether the number is in range when its first digits and the power of ten are rounded, and
their product once more. -/
def isInRange (d : Decimal) : Bool :=
  let (digits, dropped) := leadingDigits d.mantissa
  let e := d.exponent + dropped
  if digits = 0 ∨ e < 0 then true
  else if 308 < e then false
  else decide (rounded digits * rounded (Nat.pow 10 e.toNat) < doubleLimit)

end Decimal
end SealedStore
