/-!
# The curve secp256k1

Points of `y² = x³ + 7` over the field of `p` elements, in Jacobian coordinates: `(x, y, z)`
stands for `(x / z², y / z³)`, and `z = 0` for the point at infinity.  All arithmetic is on
natural numbers below `p`.
-/
namespace SealedStore.Curve

/-- The order of the field. -/
def p : Nat := 0xFFFFFFFFFFFFFFFFFFFFFFFFFFFFFFFFFFFFFFFFFFFFFFFFFFFFFFFEFFFFFC2F

/-- The order of the group. -/
def n : Nat := 0xFFFFFFFFFFFFFFFFFFFFFFFFFFFFFFFEBAAEDCE6AF48A03BBFD25E8CD0364141

/-- The lowest `k` bits of a number, highest first. -/
def bits : (k v : Nat) → List Bool
  | 0, _ => []
  | k + 1, v => bits k (v / 2) ++ [v % 2 == 1]

/-- Power by squaring, modulo `m`, for exponents below `2 ^ 256`. -/
def powMod (m b e : Nat) : Nat :=
  (bits 256 e).foldl (fun a bit => let s := a * a % m; if bit then s * b % m else s) (1 % m)

/-- The inverse modulo a prime, zero for zero. -/
def invMod (m a : Nat) : Nat := powMod m a (m - 2)

/-- Subtraction modulo `m` of numbers below it. -/
def subMod (m a b : Nat) : Nat := (a + (m - b)) % m

/-- A point in Jacobian coordinates. -/
structure Point where
  x : Nat
  y : Nat
  z : Nat
deriving DecidableEq, Repr

namespace Point

/-- The point at infinity. -/
def infinity : Point := ⟨1, 1, 0⟩

/-- A finite point from its coordinates. -/
def affine (x y : Nat) : Point := ⟨x, y, 1⟩

/-- The generator of the group. -/
def generator : Point := affine
  0x79BE667EF9DCBBAC55A06295CE870B07029BFCDB2DCE28D959F2815B16F81798
  0x483ADA7726A3C4655DA4FBFC0E1108A8FD17B448A68554199C47D08FFB10D4B8

/-- The sum of a point with itself. -/
def double (a : Point) : Point :=
  if a.z = 0 ∨ a.y = 0 then infinity else
  let yy := a.y * a.y % p
  let s := 4 * a.x * yy % p
  let m := 3 * a.x * a.x % p
  let x := subMod p (m * m % p) (2 * s % p)
  ⟨x, subMod p (m * subMod p s x % p) (8 * yy * yy % p), 2 * a.y * a.z % p⟩

/-- The sum of two points. -/
def add (a b : Point) : Point :=
  if a.z = 0 then b else if b.z = 0 then a else
  let za := a.z * a.z % p
  let zb := b.z * b.z % p
  let ua := a.x * zb % p
  let ub := b.x * za % p
  let sa := a.y * zb * b.z % p
  let sb := b.y * za * a.z % p
  if ua = ub then (if sa = sb then double a else infinity) else
  let h := subMod p ub ua
  let r := subMod p sb sa
  let hh := h * h % p
  let hhh := h * hh % p
  let v := ua * hh % p
  let x := subMod p (subMod p (r * r % p) hhh) (2 * v % p)
  ⟨x, subMod p (r * subMod p v x % p) (sa * hhh % p), h * a.z * b.z % p⟩

/-- The multiple of a point by a number below `2 ^ 256`. -/
def mul (k : Nat) (a : Point) : Point :=
  (bits 256 k).foldl (fun s bit => let d := s.double; if bit then d.add a else d) infinity

/-- The coordinates of a finite point. -/
def coordinates? (a : Point) : Option (Nat × Nat) :=
  if a.z = 0 then none else
  let i := invMod p a.z
  let ii := i * i % p
  some (a.x * ii % p, a.y * ii * i % p)

/-- The point with a given first coordinate and parity of the second, if the curve has one. -/
def lift? (x : Nat) (odd : Bool) : Option Point :=
  let yy := (x * x * x + 7) % p
  let y := powMod p yy ((p + 1) / 4)
  if x < p ∧ y * y % p = yy then some (affine x (if (y % 2 == 1) = odd then y else p - y)) else none

end Point
end SealedStore.Curve
