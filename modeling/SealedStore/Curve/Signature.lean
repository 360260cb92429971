import SealedStore.Curve.Point
import SealedStore.Hash.Sha
/-!
# Signatures on secp256k1

ECDSA over a 32-byte digest.  Nonces are derived from key and digest with HMAC-SHA-256, so signing
is deterministic, and of the two equivalent values of `s` the lower one is issued.  From digest,
signature and the parity of the nonce point the public key is recovered.
-/
namespace SealedStore.Curve

/-- The two numbers of a signature and the parity of the nonce point. -/
structure Signature where
  r : BitVec 256
  s : BitVec 256
  odd : Bool
deriving DecidableEq, Repr

/-- A private key: a number between one and the order of the group, exclusive. -/
structure PrivateKey where
  scalar : Nat
  pos : 0 < scalar
  lt_order : scalar < n

namespace PrivateKey

/-- The key with this scalar, if it is in range. -/
def ofNat? (k : Nat) : Option PrivateKey :=
  if h : 0 < k ∧ k < n then some ⟨k, h.1, h.2⟩ else none

/-- A key from 24 to 32 bytes, highest first. -/
def ofBytes? (b : Bytes) : Option PrivateKey :=
  if 24 ≤ b.length ∧ b.length ≤ 32 then ofNat? b.toNat else none

/-- The coordinates of the public key, 32 bytes each. -/
def publicKey (k : PrivateKey) : Option (Nat × Nat) :=
  (Point.generator.mul k.scalar).coordinates?

end PrivateKey

/-- The state of the nonce generator. -/
structure NonceSource where
  key : Bytes
  value : Bytes

namespace NonceSource

/-- Mixes `data` into the state, marked by one byte. -/
def update (g : NonceSource) (mark : UInt8) (data : Bytes) : NonceSource :=
  let key := Sha.hmac g.key (g.value ++ mark :: data)
  ⟨key, Sha.hmac key g.value⟩

/-- The state for one private key and one digest, both reduced to 32 bytes. -/
def start (secret digest : Bytes) : NonceSource :=
  ((⟨List.replicate 32 0, List.replicate 32 1⟩ : NonceSource).update 0 (secret ++ digest)).update 1
    (secret ++ digest)

/-- Candidates for the nonce, in order. -/
def candidates : (count : Nat) → NonceSource → List Nat
  | 0, _ => []
  | count + 1, g =>
    let value := Sha.hmac g.key g.value
    value.toNat :: candidates count ((⟨g.key, value⟩ : NonceSource).update 0 [])

end NonceSource

/-- The signature with one nonce, unless the nonce is out of range or leads to a zero. -/
def signWith? (secret z nonce : Nat) : Option Signature := do
  guard (0 < nonce ∧ nonce < n)
  let (x, y) ← (Point.generator.mul nonce).coordinates?
  let r := x % n
  let s := invMod n nonce * (z + r * secret) % n
  guard (r ≠ 0 ∧ s ≠ 0)
  let odd := y % 2 == 1
  some (if n / 2 < s then ⟨BitVec.ofNat 256 r, BitVec.ofNat 256 (n - s), !odd⟩
    else ⟨BitVec.ofNat 256 r, BitVec.ofNat 256 s, odd⟩)

/-- The deterministic signature of a digest: the first nonce that serves.  A run of unsuitable
nonces has probability below `2 ^ -127` each, so a handful of candidates suffices. -/
def PrivateKey.sign (k : PrivateKey) (digest : Octets 32) : Signature :=
  let z := digest.toList.toNat % n
  let source := NonceSource.start (Bytes.ofNat 32 k.scalar) (Bytes.ofNat 32 z)
  ((source.candidates 8).findSome? (signWith? k.scalar z)).getD ⟨0, 0, false⟩

/-- The coordinates of the public key whose signature this is. -/
def Signature.recover? (sig : Signature) (digest : Octets 32) : Option (Nat × Nat) := do
  let r := sig.r.toNat
  let s := sig.s.toNat
  guard (0 < r ∧ r < n ∧ 0 < s ∧ s < n)
  let point ← Point.lift? r sig.odd
  let z := digest.toList.toNat % n
  let ri := invMod n r
  let sum := (point.mul (s * ri % n)).add (Point.generator.mul (subMod n 0 (z * ri % n)))
  sum.coordinates?

/-- The signature with the lower of the two equivalent values of `s`. -/
def Signature.lowered (sig : Signature) : Signature :=
  if n / 2 < sig.s.toNat then { sig with s := BitVec.ofNat 256 (n - sig.s.toNat), odd := !sig.odd }
  else sig

end SealedStore.Curve
