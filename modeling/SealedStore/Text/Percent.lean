import SealedStore.Hex
/-!
# Percent signs

In an address a byte may be written as a percent sign and two hexadecimal digits.  A percent sign in
front of anything else stands for itself.
-/
namespace SealedStore.Text.Percent

/-- The bytes that characters stand for. -/
def decode : List Char → Bytes
  | [] => []
  | '%' :: a :: b :: r =>
    match Hex.digitValue? a, Hex.digitValue? b with
    | some h, some l => UInt8.ofNat (h * 16 + l) :: decode r
    | _, _ => 37 :: decode (a :: b :: r)
  | c :: r => String.utf8EncodeChar c ++ decode r

/-- The bytes that characters of a form stand for, in which a blank is written as a plus sign. -/
def decodeForm (cs : List Char) : Bytes := decode (cs.map fun c => if c = '+' then ' ' else c)

end SealedStore.Text.Percent
