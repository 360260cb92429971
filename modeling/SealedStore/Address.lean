import SealedStore.Hex
import SealedStore.Curve.Signature
/-!
# Addresses

An address is the last twenty bytes of the digest of a public key.  It is written in lower-case
hexadecimal in data, and with the mixed-case checksum in messages for people.
-/
namespace SealedStore

/-- The address of an account. -/
abbrev Address := Octets 20

namespace Address

/-- The address that belongs to a public key. -/
def ofPublicKey (key : Nat × Nat) : Address :=
  Octets.ofBytes 20
    ((Keccak.digest (Bytes.ofNat 32 key.1 ++ Bytes.ofNat 32 key.2)).toList.drop 12)

/-- The address as data writes it. -/
def text (a : Address) : String := Hex.text a.toList

/-- The address as messages write it: a letter is upper case where the digest of the lower-case
digits has a high half byte. -/
def checksum (a : Address) : String :=
  let digits := Hex.digits a.toList
  let halves := (Keccak.digest (digits.map fun c => c.toNat.toUInt8)).toList.flatMap fun d =>
    [d.toNat / 16, d.toNat % 16]
  String.ofList ('0' :: 'x' ::
    List.zipWith (fun c h => if 8 ≤ h then c.toUpper else c) digits halves)

end Address

namespace Curve

/-- The address of a private key. -/
def PrivateKey.address (k : PrivateKey) : Address :=
  (k.publicKey.map Address.ofPublicKey).getD Octets.zero

/-- The address whose signature of the digest this is. -/
def Signature.signer? (sig : Signature) (digest : Octets 32) : Option Address :=
  (sig.recover? digest).map Address.ofPublicKey

end Curve
end SealedStore
