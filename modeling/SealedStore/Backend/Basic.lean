import SealedStore.Step
import SealedStore.Record.Basic
/-!
# Backends

A backend keeps records and the values under them.  It never overwrites a record, tells an unknown
record from a missing key, and lists records by namespace and decryption condition; who may do what
is not its concern.  A backend is a structure of steps on a state of its own, so that the same
engine runs over any.  `Backend.guarded` puts a check before every call: this is how faults are
injected, and how a proof quantifies over them.
-/
namespace SealedStore

/-- The operations of a place where records and values are kept. -/
structure Backend (σ : Type) where
  start : Step σ Unit
  stop : Step σ Unit
  /-- Keeps a new record; fails if its id is taken. -/
  init : Record → Step σ Unit
  /-- Keeps a value under a record and a key, in place of an earlier one; gives the record. -/
  store : Record → String → Bytes → Step σ Record
  /-- The value under a record and a key. -/
  retrieve : Record → String → Step σ Bytes
  /-- The record with an id. -/
  fetch : RecordId → Step σ Record
  /-- The records of a namespace with a decryption condition, in the order of
  their initialization. -/
  list : BitVec 64 → String → Step σ (List Record)

namespace Backend

variable {σ ρ ω : Type}

/-- A call to a backend. -/
inductive Call where
  | start
  | stop
  | init (record : Record)
  | store (record : Record) (key : String) (value : Bytes)
  | retrieve (record : Record) (key : String)
  | fetch (id : RecordId)
  | list (block : BitVec 64) (space : String)
deriving DecidableEq

/-- The name of the operation that is called. -/
def Call.method : Call → String
  | start => "start"
  | stop => "stop"
  | init _ => "init_record"
  | store .. => "store"
  | retrieve .. => "retrieve"
  | fetch _ => "fetch"
  | list .. => "list"

/-- What a call is about: a namespace or the key of a value. -/
def Call.subject : Call → String
  | init r => r.version
  | store _ key _ => key
  | retrieve _ key => key
  | list _ space => space
  | _ => ""

/-- The backend on a part of a larger state. -/
def within (part : ρ → σ) (replace : σ → ρ → ρ) (b : Backend σ) : Backend ρ where
  start := b.start.within part replace
  stop := b.stop.within part replace
  init r := (b.init r).within part replace
  store r k v := (b.store r k v).within part replace
  retrieve r k := (b.retrieve r k).within part replace
  fetch id := (b.fetch id).within part replace
  list block space := (b.list block space).within part replace

/-- The backend with a check before every call.  A call that the check refuses does not reach it. -/
def guarded (gate : Call → Step ω Unit) (b : Backend σ) : Backend (σ × ω) :=
  let check (c : Call) : Step (σ × ω) Unit := (gate c).within Prod.snd fun w s => (s.1, w)
  let inner := b.within (ρ := σ × ω) Prod.fst fun s w => (s, w.2)
  { start := do check .start; inner.start
    stop := do check .stop; inner.stop
    init := fun r => do check (.init r); inner.init r
    store := fun r k v => do check (.store r k v); inner.store r k v
    retrieve := fun r k => do check (.retrieve r k); inner.retrieve r k
    fetch := fun id => do check (.fetch id); inner.fetch id
    list := fun block space => do check (.list block space); inner.list block space }

end Backend

/-! ## Reserved records -/

/-- The account that owns the index. -/
def Record.indexOwner : Address := Octets.ofNat 20 0x4023

/-- The record that index lists are kept under. -/
def Record.mempool : Record := Record.reserved 0x39 [Record.indexOwner] "mempool"

/-- The record that undelivered messages are kept under. -/
def Record.outbox : Record := Record.reserved 0x3a [] "outbox"

end SealedStore
