import SealedStore.Backend.Basic
import SealedStore.Record.Json
import SealedStore.Table
/-!
# Records over a key-value store

How records are laid out in a store that knows only texts and bytes: a record under `bid-` and its
id, a value under `bid-data-`, the id and the key, and for each namespace and decryption condition a
list of ids, kept as a value of the reserved mempool record.  A record is claimed first and listed
second, each in a step of its own, so that an interruption between the two can be described.
-/
namespace SealedStore

/-- The operations of a key-value store. -/
structure KeyValue (σ : Type) where
  start : Step σ Unit
  stop : Step σ Unit
  get : String → Step σ (Option Bytes)
  put : String → Bytes → Step σ Unit
  /-- Puts only where nothing is, and says whether it did. -/
  putIfAbsent : String → Bytes → Step σ Bool

namespace KeyValue

variable {σ ρ ω : Type}

/-- A call to a key-value store. -/
inductive Call where
  | start
  | stop
  | get (key : String)
  | put (key : String) (value : Bytes)
  | putIfAbsent (key : String) (value : Bytes)
deriving DecidableEq

/-- The name of the operation that is called. -/
def Call.method : Call → String
  | start => "start"
  | stop => "stop"
  | get _ => "get"
  | put .. => "put"
  | putIfAbsent .. => "put_if_absent"

/-- The key that a call is about. -/
def Call.subject : Call → String
  | get key => key
  | put key _ => key
  | putIfAbsent key _ => key
  | _ => ""

/-- The store on a part of a larger state. -/
def within (part : ρ → σ) (replace : σ → ρ → ρ) (kv : KeyValue σ) : KeyValue ρ where
  start := kv.start.within part replace
  stop := kv.stop.within part replace
  get k := (kv.get k).within part replace
  put k v := (kv.put k v).within part replace
  putIfAbsent k v := (kv.putIfAbsent k v).within part replace

/-- The store with a check before every call.  A call that the check refuses does not reach it. -/
def guarded (gate : Call → Step ω Unit) (kv : KeyValue σ) : KeyValue (σ × ω) :=
  let check (c : Call) : Step (σ × ω) Unit := (gate c).within Prod.snd fun w s => (s.1, w)
  let inner := kv.within (ρ := σ × ω) Prod.fst fun s w => (s, w.2)
  { start := do check .start; inner.start
    stop := do check .stop; inner.stop
    get := fun k => do check (.get k); inner.get k
    put := fun k v => do check (.put k v); inner.put k v
    putIfAbsent := fun k v => do check (.putIfAbsent k v); inner.putIfAbsent k v }

/-! ## Storage keys -/

/-- Where a record is kept. -/
def recordKey (id : RecordId) : String := "bid-" ++ Hex.plain id.toList

/-- Where a value is kept. -/
def valueKey (id : RecordId) (key : String) : String :=
  "bid-data-" ++ Hex.plain id.toList ++ "-" ++ key

/-- The key, under the mempool record, of an index list. -/
def indexKey (space : String) (block : BitVec 64) : String :=
  "protocol-" ++ space ++ "-bn-" ++ toString block.toNat

/-! ## Index lists -/

/-- A list of byte strings of one length as bytes. -/
def encodeList {n : Nat} (ids : List (Octets n)) : Bytes :=
  (Json.array (ids.map Json.ofOctets)).render

/-- A list of byte strings of one length from its bytes. -/
def decodeList? (n : Nat) (b : Bytes) : Option (List (Octets n)) :=
  (Json.parseAs? (.list (.octets n)) b).bind (Json.list? (Json.octets? n))

/-- What was read, or the error for bytes that do not decode. -/
def decoded {α : Type} : Option α → Except StoreError α
  | some a => .ok a
  | none => .error .undecodable

/-! ## The backend -/

variable (kv : KeyValue σ)

/-- Keeps a value under a record and a key. -/
def store (r : Record) (key : String) (value : Bytes) : Step σ Record := do
  kv.put (valueKey r.id key) value
  pure r

/-- The value under a record and a key, or which of the two is unknown.  The mempool
record counts as present. -/
def retrieve (r : Record) (key : String) : Step σ Bytes := do
  match ← kv.get (valueKey r.id key) with
  | some value => pure value
  | none =>
    if r.id = Record.mempool.id then Step.fail (.keyNotFound r.id key)
    else match ← kv.get (recordKey r.id) with
      | some _ => Step.fail (.keyNotFound r.id key)
      | none => Step.fail (.recordNotFound r.id)

/-- The record with an id. -/
def fetch (id : RecordId) : Step σ Record := do
  match ← kv.get (recordKey id) with
  | some raw => Step.ofExcept (decoded (Record.decode? raw))
  | none => Step.fail (.recordNotFound id)

/-- Keeps a record where none with its id is. -/
def claim (r : Record) : Step σ Unit := do
  if ← kv.putIfAbsent (recordKey r.id) r.encode then pure ()
  else Step.fail (.recordAlreadyPresent r.id)

/-- The ids of an index list, none if there is no such list. -/
def readIndex (key : String) : Step σ (List RecordId) := do
  match ← (kv.retrieve Record.mempool key).attempt with
  | .ok raw => Step.ofExcept (decoded (decodeList? 16 raw))
  | .error e => if e.isNotFound then pure [] else Step.fail e

/-- Writes an index list. -/
def writeIndex (key : String) (ids : List RecordId) : Step σ Unit := do
  let _ ← kv.store Record.mempool key (encodeList ids)

/-- The list with an id in it. -/
def listedWith (ids : List RecordId) (id : RecordId) : List RecordId :=
  if ids.contains id then ids else ids ++ [id]

/-- Lists a record under its namespace and decryption condition.  The list is written anew even if
the record is in it. -/
def enlist (r : Record) : Step σ Unit := do
  let key := indexKey r.version r.decryptionCondition
  let ids ← kv.readIndex key
  kv.writeIndex key (listedWith ids r.id)

/-- Keeps a new record and lists it. -/
def init (r : Record) : Step σ Unit := do
  kv.claim r
  kv.enlist r

/-- The records with these ids, less those that are not present. -/
def fetchAll : List RecordId → Step σ (List Record)
  | [] => pure []
  | id :: ids => do
    match ← (kv.fetch id).attempt with
    | .ok r => do pure (r :: (← fetchAll ids))
    | .error (.recordNotFound _) => fetchAll ids
    | .error e => Step.fail e

/-- The records of a namespace with a decryption condition. -/
def list (block : BitVec 64) (space : String) : Step σ (List Record) := do
  kv.fetchAll (← kv.readIndex (indexKey space block))

/-- The backend that keeps records in a key-value store. -/
def backend : Backend σ where
  start := kv.start
  stop := kv.stop
  init := kv.init
  store := kv.store
  retrieve := kv.retrieve
  fetch := kv.fetch
  list := kv.list

/-! ## The plain map -/

/-- The key-value store that is a table. -/
def ofTable : KeyValue (Table String Bytes) where
  start := pure ()
  stop := pure ()
  get k := Step.gets (·.find? k)
  put k v := Step.modify (·.insert k v)
  putIfAbsent k v := fun t => if t.contains k then (.ok false, t) else (.ok true, t.insert k v)

end KeyValue
end SealedStore
