import SealedStore.Json.Basic
import SealedStore.Hex
/-!
# Reading typed values from JSON trees

A structure is given as an object, in which each of its fields may stand once and other fields are
passed over, or as an array of its fields in order, in which the last ones may be absent.
-/
namespace SealedStore.Json

/-- The member with one of these names: `some none` if it is absent, `none` if it stands twice. -/
def member? (names : List String) (members : List (Option String × Json)) : Option (Option Json) :=
  match members.filter fun m => m.1.any (names.contains ·) with
  | [] => some none
  | [m] => some (some m.2)
  | _ => none

/-- The named fields of a structure, `none` where a field is absent.  The keys of an object must
denote texts, also those that no field has. -/
def fields? (names : List String) : Json → Option (List (Option Json))
  | object members =>
    if members.all fun m => m.1.isSome then names.mapM fun name => member? [name] members else none
  | array items =>
    if items.length ≤ names.length then
      some (items.map some ++ List.replicate (names.length - items.length) none)
    else none
  | _ => none

/-- A text. -/
def text? : Json → Option String
  | string s => s
  | _ => none

/-- The items of an array. -/
def items? : Json → Option (List Json)
  | array items => some items
  | _ => none

/-- A plain natural number that fits into `w` bits. -/
def word? (w : Nat) : Json → Option (BitVec w)
  | natural n => if n < Nat.pow 2 w then some (BitVec.ofNat w n) else none
  | _ => none

/-- A byte. -/
def byte? (j : Json) : Option UInt8 := (word? 8 j).map fun b => UInt8.ofBitVec b

/-- Bytes: hexadecimal text or an array of numbers below 256. -/
def bytes? : Json → Option Bytes
  | string s => s.bind Hex.bytes?
  | array items => items.mapM byte?
  | _ => none

/-- Exactly `n` bytes, in the same two forms.  An array may end in one item
more that is not a byte. -/
def octets? (n : Nat) : Json → Option (Octets n)
  | array items =>
    if items.length ≤ n + 1 ∧ (items.drop n).all fun j => (byte? j).isNone then
      ((items.take n).mapM byte?).bind Octets.ofBytes?
    else none
  | j => (bytes? j).bind Octets.ofBytes?

/-- An absent or null value, or one that is read by `read`. -/
def optional? {α : Type} (read : Json → Option α) : Option Json → Option (Option α)
  | none => some none
  | some null => some none
  | some j => (read j).map some

/-- A list whose items are read by `read`. -/
def list? {α : Type} (read : Json → Option α) (j : Json) : Option (List α) := do
  (← items? j).mapM read

/-- Bytes, written as hexadecimal text. -/
def ofBytes (b : Bytes) : Json := text (Hex.text b)

/-- A fixed number of bytes, written as hexadecimal text. -/
def ofOctets {n : Nat} (a : Octets n) : Json := ofBytes a.toList

@[simp] theorem bytes?_ofBytes (b : Bytes) : bytes? (ofBytes b) = some b := by
  simp [ofBytes, text, bytes?]

@[simp] theorem octets?_ofOctets {n : Nat} (a : Octets n) : octets? n (ofOctets a) = some a := by
  have h := bytes?_ofBytes a.toList
  simp only [ofBytes, text] at h
  simp [octets?, ofOctets, ofBytes, text, h]

end SealedStore.Json
