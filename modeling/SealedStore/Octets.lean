/-!
# Byte strings

Everything the store signs, hashes or keeps is a byte string.  This module fixes the two shapes used
throughout: `Bytes`, of any length, and `Octets n`, of exactly `n` bytes (ids, addresses, digests).
It also holds the UTF-8 bytes of a text and the big-endian reading of a number.
-/
namespace SealedStore

/-- A byte string of any length. -/
abbrev Bytes := List UInt8

namespace Bytes

/-- The UTF-8 bytes of a text. -/
def ofText (s : String) : Bytes := s.toUTF8.data.toList

/-- The text with these UTF-8 bytes, if they are well formed. -/
def toText? (b : Bytes) : Option String := String.fromUTF8? ⟨b.toArray⟩

@[simp] theorem toText?_ofText (s : String) : (ofText s).toText? = some s := by
  simp [ofText, toText?, String.fromUTF8?, String.fromUTF8, s.isValidUTF8]

/-- The number whose base-256 digits, highest first, are these bytes. -/
def toNat (b : Bytes) : Nat := b.foldl (fun n d => n * 256 + d.toNat) 0

/-- The lowest `k` base-256 digits of a number, highest first. -/
def ofNat : (k n : Nat) → Bytes
  | 0, _ => []
  | k + 1, n => ofNat k (n / 256) ++ [UInt8.ofNat (n % 256)]

@[simp] theorem length_ofNat (k n : Nat) : (ofNat k n).length = k := by
  induction k generalizing n with
  | zero => rfl
  | succ k ih => simp [ofNat, ih]

/-- A number comes back from enough of its digits. -/
theorem toNat_ofNat {k n : Nat} (h : n < Nat.pow 256 k) : toNat (ofNat k n) = n := by
  induction k generalizing n with
  | zero => simp at h; simp [h, ofNat, toNat]
  | succ k ih =>
    have hq : n / 256 < Nat.pow 256 k := by
      rw [Nat.div_lt_iff_lt_mul (by decide)]
      simpa [Nat.pow_succ] using h
    have := ih hq
    simp only [toNat, ofNat, List.foldl_append, List.foldl_cons, List.foldl_nil] at this ⊢
    rw [this, UInt8.toNat_ofNat']
    omega

/-- The base-256 digits of a number without leading zeros; zero has none. -/
def ofNatTrimmed (n : Nat) : Bytes := (ofNat ((n.log2 + 8) / 8) n).dropWhile (· == 0)

end Bytes

/-- A byte string of exactly `n` bytes. -/
structure Octets (n : Nat) where
  toList : Bytes
  length_eq : toList.length = n
deriving DecidableEq

namespace Octets

variable {n : Nat}

theorem ext_toList {a b : Octets n} (h : a.toList = b.toList) : a = b := by
  cases a; cases b; cases h; rfl

/-- The byte string as `n` bytes, if it has that length. -/
def ofBytes? (b : Bytes) : Option (Octets n) :=
  if h : b.length = n then some ⟨b, h⟩ else none

@[simp] theorem ofBytes?_toList (a : Octets n) : ofBytes? a.toList = some a := by
  simp [ofBytes?, a.length_eq]

theorem toList_of_ofBytes? {b : Bytes} {a : Octets n} (h : ofBytes? b = some a) : a.toList = b := by
  unfold ofBytes? at h
  split at h
  · injection h with h; subst h; rfl
  · simp at h

/-- The same byte `n` times. -/
def replicate (n : Nat) (b : UInt8) : Octets n := ⟨List.replicate n b, List.length_replicate⟩

/-- All bytes zero. -/
def zero : Octets n := replicate n 0

instance : Inhabited (Octets n) := ⟨zero⟩

/-- The lowest `n` bytes of a number, highest first. -/
def ofNat (n v : Nat) : Octets n := ⟨Bytes.ofNat n v, Bytes.length_ofNat n v⟩

/-- The first `n` bytes, with zeros after a byte string that is too short. -/
def ofBytes (n : Nat) (b : Bytes) : Octets n :=
  ⟨b.take n ++ List.replicate (n - b.length) 0, by
    simp only [List.length_append, List.length_take, List.length_replicate]; omega⟩

/-- Byte by byte, first difference decides. -/
def le (a b : Octets n) : Bool := decide (a.toList ≤ b.toList)

end Octets
end SealedStore
