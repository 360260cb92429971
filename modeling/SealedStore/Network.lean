import SealedStore.Backend.Memory
import SealedStore.Engine.Intake
import SealedStore.Dispatch
import SealedStore.Fault
/-!
# Engines that share a hub

Several engines on one hub, with the drafts that are open on them.  Engines may share a storage.
Every engine sees its storage and the hub through plans of faults.  Publication and consumption run
in the background: `settle` runs them until nothing is left to do, publications first and then,
engine by engine in the order in which they were started, every message that waits.
-/
namespace SealedStore

/-- A place that an engine keeps its records in: in memory, or as pairs of a key-value store. -/
structure Storage where
  memory : Memory
  pairs : Table String Bytes
  /-- Faults of the key-value store. -/
  faults : Fault.Plan

namespace Storage

/-- Nothing kept, no faults. -/
def empty : Storage := ⟨.empty, .empty, []⟩

/-- How records are laid out. -/
inductive Layout where
  | memory
  | pairs
deriving DecidableEq, Repr

/-- A plan of faults as the check of a key-value store. -/
def pairGate (c : KeyValue.Call) : Step Fault.Plan Unit :=
  Fault.Plan.gate .backend c.method c.subject

/-- The key-value store of a storage, with its faults. -/
def keyValue : KeyValue Storage :=
  (KeyValue.ofTable.guarded pairGate).within (fun s => (s.pairs, s.faults))
    fun p s => { s with pairs := p.1, faults := p.2 }

/-- The backend of a layout. -/
def backend : Layout → Backend Storage
  | .memory => Memory.backend.within memory fun memory s => { s with memory }
  | .pairs => keyValue.backend

end Storage

/-- The hub as an engine of a network sees it. -/
abbrev FaultyHub := Hub Message × Fault.Plan

/-- A storage as an engine of a network sees it. -/
abbrev FaultyStorage := Storage × Fault.Plan

/-- A plan of faults as the check of a backend. -/
def Fault.Plan.callGate (c : Backend.Call) : Step Fault.Plan Unit :=
  Fault.Plan.gate .backend c.method c.subject

/-- A plan of faults as the check of a topic. -/
def Fault.Plan.messageGate (c : Topic.Call) : Step Fault.Plan Unit :=
  Fault.Plan.gate .transport c.method ""

namespace Network

/-- An engine with what it changes, apart from what engines share. -/
structure Site where
  name : String
  engine : Engine FaultyStorage FaultyHub
  /-- The number of its storage. -/
  storage : Nat
  layout : Storage.Layout
  subscription : Option Nat
  outgoing : List Message
  journal : List Engine.LifecycleCall
  storageFaults : Fault.Plan
  topicFaults : Fault.Plan

/-- A stopped engine over a storage. -/
def Site.create (name : String) (signer : Signer) (uuid : Uuid) (keepsOutbox : Bool)
    (layout : Storage.Layout) (storage : Nat) : Site where
  name := name
  engine :=
    { backend := (Storage.backend layout).guarded Fault.Plan.callGate
      topic := Topic.ofHub.guarded Fault.Plan.messageGate
      signer, uuid, keepsOutbox }
  storage := storage
  layout := layout
  subscription := none
  outgoing := []
  journal := []
  storageFaults := []
  topicFaults := []

end Network

/-- Engines around a hub. -/
structure Network where
  sites : List Network.Site
  storages : List Storage
  hub : Hub Message
  metrics : Metrics
  /-- The drafts by name, each with the number of its engine. -/
  drafts : Table String (Nat × Draft)

namespace Network

variable {α : Type}

/-- No engines. -/
def empty : Network := ⟨[], [], .empty, .empty, .empty⟩

/-- The network with an engine more.  Without the number of an old storage it has a new one. -/
def join (w : Network) (name : String) (signer : Signer) (uuid : Uuid) (keepsOutbox : Bool)
    (layout : Storage.Layout) (shared : Option Nat) : Network :=
  let storage := shared.getD w.storages.length
  { w with
    sites := w.sites ++ [Site.create name signer uuid keepsOutbox layout storage]
    storages := if shared.isSome then w.storages else w.storages ++ [.empty] }

/-- The number of the engine with a name. -/
def index? (w : Network) (name : String) : Option Nat := w.sites.findIdx? fun s => s.name = name

/-- The state of an engine, with its part of what is shared. -/
def stateOf (w : Network) (s : Site) : Engine.State FaultyStorage FaultyHub where
  storage := (w.storages.getD s.storage .empty, s.storageFaults)
  topic := (w.hub, s.topicFaults)
  subscription := s.subscription
  outgoing := s.outgoing
  metrics := w.metrics
  journal := s.journal

/-- The network with a new state of its `i`-th engine. -/
def withState (w : Network) (i : Nat) (s : Site) (t : Engine.State FaultyStorage FaultyHub) :
    Network :=
  { w with
    sites := w.sites.set i { s with
      subscription := t.subscription
      outgoing := t.outgoing
      journal := t.journal
      storageFaults := t.storage.2
      topicFaults := t.topic.2 }
    storages := w.storages.set s.storage t.storage.1
    hub := t.topic.1
    metrics := t.metrics }

/-- A step of the `i`-th engine, if there is one. -/
def onEngine? (w : Network) (i : Nat)
    (m : Engine FaultyStorage FaultyHub → Step (Engine.State FaultyStorage FaultyHub) α) :
    Option (Except StoreError α × Network) :=
  w.sites[i]?.map fun s =>
    let r := m s.engine (w.stateOf s)
    (r.1, w.withState i s r.2)

/-- A step of the draft with a name, if there is one. -/
def onDraft? (w : Network) (name : String)
    (m : Engine FaultyStorage FaultyHub → Step (Draft.Execution FaultyStorage FaultyHub) α) :
    Option (Except StoreError α × Network) := do
  let (i, draft) ← w.drafts.find? name
  let s ← w.sites[i]?
  let r := m s.engine ⟨w.stateOf s, draft⟩
  let w' := w.withState i s r.2.engine
  some (r.1, { w' with drafts := w'.drafts.insert name (i, r.2.draft) })

/-- The storage of the `i`-th engine changed. -/
def changeStorage (w : Network) (i : Nat) (f : Storage → Storage) : Network :=
  match w.sites[i]? with
  | some s => { w with storages := w.storages.modify s.storage f }
  | none => w

/-- The `i`-th engine's part changed. -/
def changeSite (w : Network) (i : Nat) (f : Site → Site) : Network :=
  { w with sites := w.sites.modify i f }

/-- The network with the journals of its engines empty. -/
def forget (w : Network) : Network :=
  { w with sites := w.sites.map fun s => { s with journal := [] } }

/-! ## Background work -/

/-- Publishes up to `n` messages that the `i`-th engine handed to publication. -/
def publishAll (w : Network) (i : Nat) : Nat → Network
  | 0 => w
  | n + 1 =>
    match w.onEngine? i fun e => e.publishNext with
    | some (_, w') => publishAll w' i n
    | none => w

/-- Lets the `i`-th engine consume up to `n` messages. -/
def consumeAll (w : Network) (i : Nat) : Nat → Network
  | 0 => w
  | n + 1 =>
    match w.onEngine? i fun e => e.consumeNext with
    | some (.ok true, w') => consumeAll w' i n
    | some (_, w') => w'
    | none => w

/-- The engines that run, in the order in which they were started. -/
def running (w : Network) : List Nat :=
  let subscribed := w.sites.zipIdx.filterMap fun s => s.1.subscription.map fun n => (n, s.2)
  (subscribed.mergeSort fun a b => a.1 ≤ b.1).map (·.2)

/-- Runs all background work. -/
def settle (w : Network) : Network :=
  let published := w.sites.zipIdx.foldl (fun w s => w.publishAll s.2 s.1.outgoing.length) w
  published.running.foldl (fun w i => w.consumeAll i w.hub.published.size) published

end Network
end SealedStore
