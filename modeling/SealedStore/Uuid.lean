import SealedStore.Hex
import SealedStore.Hash.Sha
/-!
# UUIDs

Sixteen bytes, written as hyphenated groups of digits.  The hyphenated form is also read in
braces or behind `urn:uuid:`, and the digits alone without hyphens.  `Uuid.named` is the
name-based form (version 5).
-/
namespace SealedStore

/-- A universally unique identifier. -/
abbrev Uuid := Octets 16

namespace Uuid

/-- The lengths of the groups of the hyphenated form. -/
def groups : List Nat := [8, 4, 4, 4, 12]

/-- The digits in groups of these lengths, with hyphens between them. -/
def hyphenate : List Nat → List Char → List Char
  | [], _ => []
  | [k], cs => cs.take k
  | k :: ks, cs => cs.take k ++ '-' :: hyphenate ks (cs.drop k)

/-- The written form. -/
def text (u : Uuid) : String := String.ofList (hyphenate groups (Hex.digits u.toList))

/-- The digits of a text in groups of these lengths. -/
def unhyphenate : List Nat → List Char → Option (List Char)
  | [], cs => if cs = [] then some [] else none
  | [k], cs => if cs.length = k then some cs else none
  | k :: ks, cs =>
    match cs.drop k with
    | '-' :: r => (unhyphenate ks r).map (cs.take k ++ ·)
    | _ => none

/-- The bytes of exactly 32 digits. -/
def ofDigits? (cs : List Char) : Option Uuid := (Hex.readDigits cs).toOption.bind Octets.ofBytes?

/-- What a text may start with, in either case. -/
def mark : List Char := "urn:uuid:".toList

/-- The text between braces, or behind its mark, or as it stands. -/
def unwrap (cs : List Char) : List Char :=
  match cs with
  | '{' :: r => if r.getLast? = some '}' then r.dropLast else cs
  | cs => if (cs.take mark.length).map Char.toLower = mark then cs.drop mark.length else cs

/-- A UUID from its text. -/
def parse? (s : String) : Option Uuid :=
  let cs := s.toList
  if cs.length = 32 then ofDigits? cs
  else (unhyphenate groups (unwrap cs)).bind ofDigits?

/-- The name-based UUID of `name` under the nil namespace: the digest of sixteen zeros and the name,
with version and variant set. -/
def named (name : Bytes) : Uuid :=
  let d := (Sha.sha1 (List.replicate 16 0 ++ name)).toList
  Octets.ofBytes 16 (d.take 6 ++ ((d.getD 6 0 &&& 0x0F) ||| 0x50) :: d.getD 7 0 ::
    ((d.getD 8 0 &&& 0x3F) ||| 0x80) :: (d.drop 9).take 7)

end Uuid
end SealedStore
