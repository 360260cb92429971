import SealedStore.Record.Basic
/-!
# What can go wrong

The causes of failure of the store, and their messages.
-/
namespace SealedStore

/-- What an account was not allowed to do. -/
inductive Action where
  | retrieve
  | store
  | replicate
deriving DecidableEq, Repr

/-- The word for an action in messages. -/
def Action.word : Action → String
  | retrieve => "retrieve"
  | store => "store"
  | replicate => "replicate"

/-- Why an operation of the store failed. -/
inductive StoreError where
  | recordNotFound (id : RecordId)
  | keyNotFound (id : RecordId) (key : String)
  | recordAlreadyPresent (id : RecordId)
  | unauthorized (id : RecordId) (caller : Address) (action : Action)
  | idMismatch (supplied derived : RecordId)
  | signerMismatch (expected recovered : Address)
  | unsignedTransaction (reason : String)
  | unsignedFinalize
  | alreadyFinalized
  | signing (reason : String)
  | backend (reason : String)
  | transport (reason : String)
  | serialization (reason : String)
  | lifecycle (reason : String)
  | dispatch (reason : String)
deriving DecidableEq

namespace StoreError

/-- The message for people. -/
def message : StoreError → String
  | recordNotFound id => "record not found: " ++ Hex.text id.toList
  | keyNotFound id key => "key " ++ key ++ " not found for record " ++ Hex.text id.toList
  | recordAlreadyPresent id => "record " ++ Hex.text id.toList ++ " already present"
  | unauthorized id caller action =>
    Address.checksum caller ++ " is not allowed to " ++ action.word ++ " record " ++
      Hex.text id.toList
  | idMismatch supplied derived =>
    "record id mismatch: supplied " ++ Hex.text supplied.toList ++ ", derived " ++
      Hex.text derived.toList
  | signerMismatch expected recovered =>
    "signer mismatch: expected " ++ Address.checksum expected ++ ", recovered " ++
      Address.checksum recovered
  | unsignedTransaction reason => "transaction is not signed: " ++ reason
  | unsignedFinalize => "cannot finalize with an unsigned transaction"
  | alreadyFinalized => "transactional store already finalized"
  | signing reason => "signing error: " ++ reason
  | backend reason => "backend error: " ++ reason
  | transport reason => "transport error: " ++ reason
  | serialization reason => "serialization error: " ++ reason
  | lifecycle reason => "lifecycle error: " ++ reason
  | dispatch reason => "dispatch error: " ++ reason

/-- The name of the cause. -/
def name : StoreError → String
  | .recordNotFound .. => "RecordNotFound"
  | .keyNotFound .. => "KeyNotFound"
  | .recordAlreadyPresent .. => "RecordAlreadyPresent"
  | .unauthorized .. => "Unauthorized"
  | .idMismatch .. => "IdMismatch"
  | .signerMismatch .. => "SignerMismatch"
  | .unsignedTransaction .. => "UnsignedTransaction"
  | .unsignedFinalize => "UnsignedFinalize"
  | .alreadyFinalized => "AlreadyFinalized"
  | .signing .. => "Signing"
  | .backend .. => "Backend"
  | .transport .. => "Transport"
  | .serialization .. => "Serialization"
  | .lifecycle .. => "Lifecycle"
  | .dispatch .. => "Dispatch"

/-- A record with this id was initialized before. -/
def isAlreadyPresent : StoreError → Bool
  | recordAlreadyPresent _ => true
  | _ => false

/-- The record or the key is unknown. -/
def isNotFound : StoreError → Bool
  | recordNotFound _ => true
  | keyNotFound _ _ => true
  | _ => false

/-- Bytes that do not decode. -/
def undecodable : StoreError := serialization "malformed JSON"

end StoreError

end SealedStore
