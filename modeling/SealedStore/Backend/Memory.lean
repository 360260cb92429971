import SealedStore.Backend.Basic
import SealedStore.Table
/-!
# Records in memory

The plainest backend: a table of records, one of values and one of index
lists.  Nothing outlives it.
-/
namespace SealedStore

/-- Records, values and index lists in memory. -/
structure Memory where
  records : Table RecordId Record
  values : Table (RecordId × String) Bytes
  /-- The ids of a namespace and a decryption condition, oldest first. -/
  index : Table (String × BitVec 64) (List RecordId)
deriving DecidableEq

namespace Memory

/-- No records and no values. -/
def empty : Memory := ⟨.empty, .empty, .empty⟩

instance : Inhabited Memory := ⟨empty⟩

/-- The ids listed for a namespace and a decryption condition. -/
def indexed (m : Memory) (space : String) (block : BitVec 64) : List RecordId :=
  (m.index.find? (space, block)).getD []

/-- The memory with a new record, listed last. -/
def withRecord (m : Memory) (r : Record) : Memory where
  records := m.records.insert r.id r
  values := m.values
  index := m.index.insert (r.version, r.decryptionCondition)
    (m.indexed r.version r.decryptionCondition ++ [r.id])

/-- The memory with a value under a record and a key. -/
def withValue (m : Memory) (id : RecordId) (key : String) (value : Bytes) : Memory :=
  { m with values := m.values.insert (id, key) value }

/-- Keeps a new record. -/
def init (r : Record) : Step Memory Unit := fun m =>
  if m.records.contains r.id then (.error (.recordAlreadyPresent r.id), m)
  else (.ok (), m.withRecord r)

/-- Keeps a value, also under a record that is not present. -/
def store (r : Record) (key : String) (value : Bytes) : Step Memory Record := fun m =>
  (.ok r, m.withValue r.id key value)

/-- The value under a record and a key, or which of the two is unknown. -/
def lookup (m : Memory) (id : RecordId) (key : String) : Except StoreError Bytes :=
  match m.values.find? (id, key) with
  | some value => .ok value
  | none =>
    if m.records.contains id then .error (.keyNotFound id key) else .error (.recordNotFound id)

/-- The record with an id. -/
def record (m : Memory) (id : RecordId) : Except StoreError Record :=
  match m.records.find? id with
  | some r => .ok r
  | none => .error (.recordNotFound id)

/-- The records of a namespace with a decryption condition. -/
def listed (m : Memory) (block : BitVec 64) (space : String) : List Record :=
  (m.indexed space block).filterMap m.records.find?

/-- The backend in memory. -/
def backend : Backend Memory where
  start := pure ()
  stop := pure ()
  init := init
  store := store
  retrieve r key := fun m => (m.lookup r.id key, m)
  fetch id := fun m => (m.record id, m)
  list block space := fun m => (.ok (m.listed block space), m)

end Memory
end SealedStore
