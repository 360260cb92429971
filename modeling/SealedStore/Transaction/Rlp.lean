import SealedStore.Octets
/-!
# Recursive length prefix

The binary form that transactions are hashed in: byte strings and lists of such forms, each behind
its length.  A single byte below 128 stands for itself.
-/
namespace SealedStore.Rlp

/-- The mark and length in front of `size` bytes. -/
def header (mark : UInt8) (size : Nat) : Bytes :=
  if size < 56 then [mark + UInt8.ofNat size]
  else
    let length := Bytes.ofNatTrimmed size
    (mark + 55 + UInt8.ofNat length.length) :: length

/-- A byte string. -/
def bytes (b : Bytes) : Bytes :=
  match b with
  | [d] => if d < 128 then [d] else [129, d]
  | b => header 128 b.length ++ b

/-- A number, by its digits in base 256 without leading zeros. -/
def number (n : Nat) : Bytes := bytes (Bytes.ofNatTrimmed n)

/-- A list of forms already written. -/
def list (items : List Bytes) : Bytes :=
  let body := items.flatten
  header 192 body.length ++ body

end SealedStore.Rlp
