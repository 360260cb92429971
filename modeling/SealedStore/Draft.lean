import SealedStore.Engine.Basic
/-!
# Drafts

An execution of a transaction works on a draft: reads fall through to what is committed, and
writes are staged until the draft is finalized, once.  A call that needs a committed record
looks it up between two moments in which it looks at the draft, and the draft may be finalized
in between; so `Draft.store` is made of `beginStore`, the lookup and `completeStore`, and the
draft is checked in both.
-/
namespace SealedStore

/-- What one execution has staged. -/
structure Draft where
  /-- The transaction that is executed. -/
  tx : Transaction
  records : Table RecordId Record
  /-- Oldest first. -/
  writes : List StoreWrite
  finalized : Bool

namespace Draft

/-- A draft with nothing staged. -/
def begin (tx : Transaction) : Draft := ⟨tx, .empty, [], false⟩

/-- A draft takes no more once it is finalized. -/
def checkOpen (d : Draft) : Except StoreError Unit :=
  if d.finalized then .error .alreadyFinalized else .ok ()

/-- The latest value staged under a record and a key. -/
def staged? (d : Draft) (id : RecordId) (key : String) : Option Bytes :=
  (d.writes.reverse.find? fun w => w.record.id = id ∧ w.key = key).map (·.value)

/-- The records staged under a namespace and a decryption condition. -/
def listed (d : Draft) (block : BitVec 64) (space : String) : List Record :=
  d.records.values.filter fun r => r.decryptionCondition = block ∧ r.version = space

/-- The committed records and those staged under other ids. -/
def merge (committed staged : List Record) : List Record :=
  staged.foldl (fun all r => if all.any fun q => q.id = r.id then all else all ++ [r]) committed

/-- An engine's state beside a draft on it. -/
structure Execution (σ τ : Type) where
  engine : Engine.State σ τ
  draft : Draft

variable {σ τ α : Type} (e : Engine σ τ)

/-- A step of the engine. -/
def onEngine (m : Step (Engine.State σ τ) α) : Step (Execution σ τ) α :=
  m.within Execution.engine fun engine s => { s with engine }

/-- A step of the draft. -/
def onDraft (m : Step Draft α) : Step (Execution σ τ) α :=
  m.within Execution.draft fun draft s => { s with draft }

/-- What a pure look at the draft gives. -/
def look (f : Draft → Except StoreError α) : Step (Execution σ τ) α := fun s => (f s.draft, s)

/-! ## Staging -/

/-- Stages an initialized record, unless its id is staged. -/
def stageRecord (r : Record) : Step Draft Record := do
  Step.ofExcept (← Step.get).checkOpen
  if (← Step.get).records.contains r.id then Step.fail (.recordAlreadyPresent r.id)
  else do
    Step.modify fun d => { d with records := d.records.insert r.id r }
    pure r

/-- Stages a new record of the draft's transaction. -/
def init (r : Record) : Step (Execution σ τ) Record := do
  look checkOpen
  let r ← look fun d => e.prepare r d.tx
  onDraft (stageRecord r)

/-- The first moment of `store`: the draft must be open; a staged record needs no lookup. -/
def beginStore (id : RecordId) (d : Draft) : Except StoreError (Option Record) := do
  d.checkOpen
  pure (d.records.find? id)

/-- The last moment of `store`: stages a value, if the draft is still open. -/
def completeStore (r : Record) (id : RecordId) (caller : Address) (key : String) (value : Bytes) :
    Step Draft Record := do
  Step.ofExcept (Engine.checkPeeker r id caller .store)
  Step.ofExcept (← Step.get).checkOpen
  Step.modify fun d => { d with writes := d.writes ++ [⟨r, caller, key, value⟩] }
  pure r

/-- The record with an id, staged or committed. -/
def fetch (id : RecordId) : Step (Execution σ τ) Record := do
  match ← look fun d => .ok (d.records.find? id) with
  | some r => pure r
  | none => onEngine (e.fetch id)

/-- Stages a value under a record, for those who may write it. -/
def store (id : RecordId) (caller : Address) (key : String) (value : Bytes) :
    Step (Execution σ τ) Record := do
  match ← look (beginStore id) with
  | some r => onDraft (completeStore r id caller key value)
  | none => do
    let r ← onEngine (e.fetch id)
    onDraft (completeStore r id caller key value)

/-! ## Reading -/

/-- The value under a record and a key, for those who may read it: the latest staged one, or for a
record that is not staged the committed one. -/
def retrieve (id : RecordId) (caller : Address) (key : String) : Step (Execution σ τ) Bytes := do
  let isStaged ← look fun d => .ok (d.records.contains id)
  let r ← fetch e id
  Step.ofExcept (Engine.checkPeeker r id caller .retrieve)
  match ← look fun d => .ok (d.staged? id key) with
  | some value => pure value
  | none =>
    if isStaged then Step.fail (.keyNotFound id key)
    else onEngine (e.retrieve id caller key)

/-- The records of a namespace with a decryption condition, committed and staged. -/
def list (block : BitVec 64) (space : String) : Step (Execution σ τ) (List Record) := do
  let committed ← onEngine (e.list block space)
  look fun d => .ok (merge committed (d.listed block space))

/-! ## Finalizing -/

/-- Closes the draft and takes what it staged. -/
def take : Step Draft (List Record × List StoreWrite) := do
  let d ← Step.get
  Step.ofExcept d.checkOpen
  Step.modify fun d => { d with records := .empty, writes := [], finalized := true }
  pure (d.records.values, d.writes)

/-- Commits what the draft staged.  Only the first call proceeds, whether or not it succeeds. -/
def finalize : Step (Execution σ τ) Unit := do
  let batch ← onDraft take
  let tx ← look fun d => .ok d.tx
  onEngine (e.finalize tx batch.1 batch.2)

end Draft
end SealedStore
