import SealedStore.Transaction.Basic
import SealedStore.Uuid
/-!
# Records

A record is the unit of confidential data: who may read values under it, who may replicate it, and
an id derived from just that.  Values are kept under a record and a key, never inside the record,
and a record is not changed once it is initialized.
-/
namespace SealedStore

/-- The id of a record. -/
abbrev RecordId := Octets 16

/-- A record and the transaction that created it. -/
structure Record where
  id : RecordId
  salt : Octets 16
  /-- Usually the number of a block; it serves as an index only. -/
  decryptionCondition : BitVec 64
  /-- Those who may read and write values. -/
  allowedPeekers : List Address
  /-- Those whose messages may bring the record to other nodes. -/
  allowedStores : List Address
  /-- A namespace. -/
  version : String
  creationTx : Option Transaction
  signature : Bytes
deriving DecidableEq

namespace Record

/-- Whether an account may read and write values under the record. -/
def isPeeker (r : Record) (a : Address) : Bool := r.allowedPeekers.contains a

/-- Whether an account may replicate the record. -/
def isStore (r : Record) (a : Address) : Bool := r.allowedStores.contains a

/-- A record that is not yet initialized. -/
def fresh (salt : Octets 16) (decryptionCondition : BitVec 64)
    (allowedPeekers allowedStores : List Address) (version : String) : Record :=
  ⟨Octets.zero, salt, decryptionCondition, allowedPeekers, allowedStores, version, none, []⟩

/-- A record that the store itself keeps values under; it is never initialized. -/
def reserved (mark : UInt8) (owners : List Address) (version : String) : Record :=
  ⟨Octets.ofBytes 16 [mark], Octets.zero, 0, owners, owners, version, none, []⟩

end Record

/-- One value written under a record and a key. -/
structure StoreWrite where
  record : Record
  caller : Address
  key : String
  value : Bytes
deriving DecidableEq

/-- The unit of replication between nodes: the writes of one transaction. -/
structure Message where
  sourceTx : Transaction
  writes : List StoreWrite
  /-- The instance that published it. -/
  origin : Uuid
  signature : Bytes
deriving DecidableEq

end SealedStore
