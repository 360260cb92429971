import SealedStore.Transaction.Basic
import SealedStore.Transaction.Rlp
/-!
# Senders of transactions

The bytes that a transaction's signature covers, and the address that signed them.  A
signature whose `s` is in the upper half of the group order is refused, so the sender
determines the signature's form.
-/
namespace SealedStore

namespace AccessItem

/-- The binary form of an announced account. -/
def rlp (a : AccessItem) : Bytes :=
  Rlp.list [Rlp.bytes a.address.toList, Rlp.list (a.storageKeys.map fun k => Rlp.bytes k.toList)]

end AccessItem

namespace Authorization

/-- The binary form of an authorization. -/
def rlp (a : Authorization) : Bytes :=
  Rlp.list [Rlp.number a.chainId.toNat, Rlp.bytes a.address.toList, Rlp.number a.nonce.toNat,
    Rlp.number a.yParity.toNat, Rlp.number a.r.toNat, Rlp.number a.s.toNat]

end Authorization

namespace Payload

/-- The binary form of a recipient, empty when there is none. -/
def rlpRecipient (a : Option Address) : Bytes := Rlp.bytes ((a.map Octets.toList).getD [])

/-- The binary form of an access list. -/
def rlpAccess (access : List AccessItem) : Bytes := Rlp.list (access.map AccessItem.rlp)

/-- The type byte in front of the binary form; the oldest type has none. -/
def mark : Payload → Bytes
  | legacy .. => []
  | accessList .. => [1]
  | dynamicFee .. => [2]
  | blob .. => [3]
  | setCode .. => [4]

/-- The fields of a payload in binary form, in order. -/
def rlpFields : Payload → List Bytes
  | legacy _ gasPrice recipient c =>
    [Rlp.number c.nonce.toNat, Rlp.number gasPrice.toNat, Rlp.number c.gas.toNat,
      rlpRecipient recipient, Rlp.number c.value.toNat, Rlp.bytes c.input]
  | accessList chainId gasPrice recipient access c =>
    [Rlp.number chainId.toNat, Rlp.number c.nonce.toNat, Rlp.number gasPrice.toNat,
      Rlp.number c.gas.toNat, rlpRecipient recipient, Rlp.number c.value.toNat, Rlp.bytes c.input,
      rlpAccess access]
  | dynamicFee chainId bid recipient access c =>
    [Rlp.number chainId.toNat, Rlp.number c.nonce.toNat, Rlp.number bid.maxPriorityFee.toNat,
      Rlp.number bid.maxFee.toNat, Rlp.number c.gas.toNat, rlpRecipient recipient,
      Rlp.number c.value.toNat, Rlp.bytes c.input, rlpAccess access]
  | blob chainId bid recipient access blobHashes maxBlobFee _ c =>
    [Rlp.number chainId.toNat, Rlp.number c.nonce.toNat, Rlp.number bid.maxPriorityFee.toNat,
      Rlp.number bid.maxFee.toNat, Rlp.number c.gas.toNat, rlpRecipient recipient,
      Rlp.number c.value.toNat, Rlp.bytes c.input, rlpAccess access, Rlp.number maxBlobFee.toNat,
      Rlp.list (blobHashes.map fun h => Rlp.bytes h.toList)]
  | setCode chainId bid recipient access authorizations c =>
    [Rlp.number chainId.toNat, Rlp.number c.nonce.toNat, Rlp.number bid.maxPriorityFee.toNat,
      Rlp.number bid.maxFee.toNat, Rlp.number c.gas.toNat, rlpRecipient recipient,
      Rlp.number c.value.toNat, Rlp.bytes c.input, rlpAccess access,
      Rlp.list (authorizations.map Authorization.rlp)]

/-- The bytes that a signature covers; the oldest type binds the chain by
three fields at the end. -/
def signingBytes : Payload → Bytes
  | legacy (some chainId) gasPrice recipient c =>
    Rlp.list ((legacy (some chainId) gasPrice recipient c).rlpFields ++
      [Rlp.number chainId.toNat, Rlp.number 0, Rlp.number 0])
  | p => p.mark ++ Rlp.list p.rlpFields

/-- The digest that is signed. -/
def signingDigest (p : Payload) : Octets 32 := Keccak.digest p.signingBytes

/-- The number that stands for a signature's parity, which in the oldest type
also names the chain. -/
def parityNumber (p : Payload) (odd : Bool) : Nat :=
  match p with
  | legacy none .. => 27 + odd.toNat
  | legacy (some chainId) .. => 35 + 2 * chainId.toNat + odd.toNat
  | _ => odd.toNat

/-- The transaction with a signature, under the hash of its binary form. -/
def signed (p : Payload) (sig : Curve.Signature) : Transaction :=
  let parts := p.rlpFields ++
    [Rlp.number (p.parityNumber sig.odd), Rlp.number sig.r.toNat, Rlp.number sig.s.toNat]
  ⟨p, sig, Keccak.digest (p.mark ++ Rlp.list parts)⟩

end Payload

/-- The address that signed a transaction, if its signature is in lower form and recovers. -/
def Transaction.sender? (tx : Transaction) : Option Address :=
  if Curve.n / 2 < tx.signature.s.toNat then none
  else tx.signature.signer? tx.payload.signingDigest

end SealedStore
