import SealedStore.Address
/-!
# Transactions

A chain transaction of one of five types, with its signature and the hash it was announced
under.  The hash is carried along and never recomputed, so two transactions that differ
only in it are different.
-/
namespace SealedStore

/-- Storage slots of one account that a transaction announces to touch. -/
structure AccessItem where
  address : Address
  storageKeys : List (Octets 32)
deriving DecidableEq

/-- An account's permission to run the code of another. -/
structure Authorization where
  chainId : BitVec 256
  address : Address
  nonce : BitVec 64
  yParity : BitVec 8
  r : BitVec 256
  s : BitVec 256
deriving DecidableEq

/-- The part of a transaction that every type has. -/
structure Call where
  nonce : BitVec 64
  gas : BitVec 64
  value : BitVec 256
  input : Bytes
deriving DecidableEq

/-- The upper bounds of a transaction that bids for priority. -/
structure Bid where
  maxFee : BitVec 128
  maxPriorityFee : BitVec 128
deriving DecidableEq

/-- The proofs that come with blobs: one for each blob, or one for each of a blob's cells. -/
inductive BlobProofs where
  | whole (proofs : List (Octets 48))
  | cells (proofs : List (Octets 48))
deriving DecidableEq

/-- How many bytes a blob has. -/
def blobSize : Nat := 131072

/-- The blobs that a transaction may carry along.  Its signature covers only their hashes. -/
structure Sidecar where
  blobs : List (Octets blobSize)
  commitments : List (Octets 48)
  proofs : BlobProofs
deriving DecidableEq

/-- What a transaction of each type says; a recipient that is absent creates a contract. -/
inductive Payload where
  | legacy (chainId : Option (BitVec 64)) (gasPrice : BitVec 128)
      (recipient : Option Address) (call : Call)
  | accessList (chainId : BitVec 64) (gasPrice : BitVec 128) (recipient : Option Address)
      (access : List AccessItem) (call : Call)
  | dynamicFee (chainId : BitVec 64) (bid : Bid) (recipient : Option Address)
      (access : List AccessItem) (call : Call)
  | blob (chainId : BitVec 64) (bid : Bid) (recipient : Address) (access : List AccessItem)
      (blobHashes : List (Octets 32)) (maxBlobFee : BitVec 128)
      (sidecar : Option Sidecar) (call : Call)
  | setCode (chainId : BitVec 64) (bid : Bid) (recipient : Address) (access : List AccessItem)
      (authorizations : List Authorization) (call : Call)
deriving DecidableEq

/-- A signed transaction as it travels. -/
structure Transaction where
  payload : Payload
  signature : Curve.Signature
  hash : Octets 32
deriving DecidableEq

end SealedStore
