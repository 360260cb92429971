import SealedStore.Outbox
import SealedStore.Topic
import SealedStore.Metrics
import SealedStore.Signer
/-!
# The engine

The engine of a node commits batches of records and writes to its backend and hands their messages
to the topic.  It is given by a backend, a topic, a signer and its identity; what changes is its
`State`.  Publishing does not delay a commit: a message is put into `outgoing`, and `publishNext` is
the background task that takes it from there.
-/
namespace SealedStore

/-- What an engine is built from. -/
structure Engine (σ τ : Type) where
  backend : Backend σ
  topic : Topic τ
  signer : Signer
  /-- Names this engine on the topic. -/
  uuid : Uuid
  /-- Whether messages are kept in the outbox until they are published. -/
  keepsOutbox : Bool

namespace Engine

/-- What an engine starts and stops. -/
inductive Component where
  | backend
  | topic
deriving DecidableEq, Repr

/-- A call that an engine made to start or stop a component. -/
structure LifecycleCall where
  component : Component
  /-- Whether the call was to start the component or to stop it. -/
  starting : Bool
  succeeded : Bool
deriving DecidableEq, Repr

/-- What an engine changes. -/
structure State (σ τ : Type) where
  storage : σ
  topic : τ
  /-- The subscription that is consumed while the engine runs. -/
  subscription : Option Nat
  /-- Messages handed to publication, oldest first. -/
  outgoing : List Message
  metrics : Metrics
  /-- The calls made to start and stop components, oldest first. -/
  journal : List LifecycleCall

variable {σ τ α : Type}

/-- A stopped engine that has done nothing. -/
def State.initial (storage : σ) (topic : τ) : State σ τ :=
  ⟨storage, topic, none, [], .empty, []⟩

/-- Whether the engine runs. -/
def State.running (s : State σ τ) : Bool := s.subscription.isSome

/-- A step of the backend. -/
def onStorage (m : Step σ α) : Step (State σ τ) α :=
  m.within State.storage fun storage s => { s with storage }

/-- A step of the topic. -/
def onTopic (m : Step τ α) : Step (State σ τ) α :=
  m.within State.topic fun topic s => { s with topic }

/-- Counts something. -/
def count (metric : Metric) : Step (State σ τ) Unit :=
  Step.modify fun s => { s with metrics := s.metrics.add metric 1 }

/-- Hands messages to publication. -/
def enqueue (ms : List Message) : Step (State σ τ) Unit :=
  Step.modify fun s => { s with outgoing := s.outgoing ++ ms }

/-- Marks the engine as running or stopped. -/
def setSubscription (subscription : Option Nat) : Step (State σ τ) Unit :=
  Step.modify fun s => { s with subscription }

/-- Makes a call to start or stop a component and notes it. -/
def lifecycle (component : Component) (starting : Bool) (call : Step (State σ τ) Unit) :
    Step (State σ τ) Unit := do
  let result ← call.attempt
  Step.modify fun s => { s with journal := s.journal ++ [⟨component, starting, result.isOk⟩] }
  Step.ofExcept result

variable (e : Engine σ τ)

/-! ## Starting and stopping -/

/-- Starts the backend. -/
def startBackend : Step (State σ τ) Unit := lifecycle .backend true (onStorage e.backend.start)

/-- Stops the backend. -/
def stopBackend : Step (State σ τ) Unit := lifecycle .backend false (onStorage e.backend.stop)

/-- Starts the topic. -/
def startTopic : Step (State σ τ) Unit := lifecycle .topic true (onTopic e.topic.start)

/-- Stops the topic. -/
def stopTopic : Step (State σ τ) Unit := lifecycle .topic false (onTopic e.topic.stop)

/-- Starts the backend and the topic and subscribes.  What was started before a step that fails is
stopped again, and an error of that is dropped. -/
def connect : Step (State σ τ) Nat := do
  e.startBackend
  match ← e.startTopic.attempt with
  | .error err => do
    e.stopBackend.ignore
    Step.fail err
  | .ok () =>
    match ← (onTopic e.topic.subscribe).attempt with
    | .error err => do
      e.stopTopic.ignore
      e.stopBackend.ignore
      Step.fail err
    | .ok subscription => pure subscription

/-- Hands every message that waits in the outbox to publication. -/
def requeuePending : Step (State σ τ) Unit := do
  match ← (onStorage (Outbox.pending e.backend)).attempt with
  | .ok ms => enqueue ms
  | .error _ => pure ()

/-- Starts the engine. -/
def start : Step (State σ τ) Unit := do
  if ← Step.gets State.running then Step.fail (.lifecycle "engine already started")
  else do
    let subscription ← e.connect
    setSubscription (some subscription)
    if e.keepsOutbox then e.requeuePending else pure ()

/-- Detaches from the topic. -/
def detach (subscription : Nat) : Step (State σ τ) Unit :=
  Step.modify fun s => { s with subscription := none, topic := e.topic.cancel subscription s.topic }

/-- Stops the engine: both the topic and the backend are stopped, whichever of them fails, and the
first error is reported.  An engine that does not run is left alone. -/
def stop : Step (State σ τ) Unit := do
  match ← Step.gets State.subscription with
  | none => pure ()
  | some subscription => do
    e.detach subscription
    let topic ← e.stopTopic.attempt
    let backend ← e.stopBackend.attempt
    Step.ofExcept topic
    Step.ofExcept backend

/-! ## Records and values -/

/-- A record with its id, the transaction that creates it, and the signature of that transaction's
sender.  Nothing is kept yet. -/
def prepare (r : Record) (tx : Transaction) : Except StoreError Record := do
  let id ← r.resolveId
  let creator ← e.signer.sender tx
  let bare := { r with id, creationTx := some tx, signature := [] }
  let signature ← e.signer.sign creator bare.signableBytes
  pure { bare with signature }

/-- Refuses an account that may not read and write values under a record. -/
def checkPeeker (r : Record) (id : RecordId) (caller : Address) (action : Action) :
    Except StoreError Unit :=
  if r.isPeeker caller then .ok () else .error (.unauthorized id caller action)

/-- Keeps a value under a record that is present.  The caller's right is not checked. -/
def store (id : RecordId) (key : String) (value : Bytes) : Step (State σ τ) Record :=
  onStorage do
    let r ← e.backend.fetch id
    e.backend.store r key value

/-- The value under a record and a key, for those who may read it. -/
def retrieve (id : RecordId) (caller : Address) (key : String) : Step (State σ τ) Bytes :=
  onStorage do
    let r ← e.backend.fetch id
    Step.ofExcept (checkPeeker r id caller .retrieve)
    e.backend.retrieve r key

/-- The record with an id. -/
def fetch (id : RecordId) : Step (State σ τ) Record := onStorage (e.backend.fetch id)

/-- The records of a namespace with a decryption condition. -/
def list (block : BitVec 64) (space : String) : Step (State σ τ) (List Record) :=
  onStorage (e.backend.list block space)

/-! ## Committing -/

/-- The signed message of a batch; a batch without writes has none. -/
def compose (tx : Transaction) (author : Address) (writes : List StoreWrite) :
    Except StoreError (Option Message) :=
  if writes.isEmpty then .ok none
  else do
    let bare : Message := ⟨tx, writes, e.uuid, []⟩
    let signature ← e.signer.sign author bare.signableBytes
    pure (some { bare with signature })

/-- Keeps the new records, then the values, up to the first failure. -/
def commit (records : List Record) (writes : List StoreWrite) : Step (State σ τ) Unit := do
  Step.forEach records fun r => do
    onStorage (e.backend.init r)
    count .recordsInitialized
  Step.forEach writes fun w => do
    let _ ← onStorage (e.backend.store w.record w.key w.value)
    count .writesCommitted

/-- Puts the message of a batch into the outbox, if there is one. -/
def deposit (message : Option Message) : Step (State σ τ) (Option (Octets 32)) :=
  match message with
  | some m =>
    if e.keepsOutbox then do pure (some (← onStorage (Outbox.push e.backend m))) else pure none
  | none => pure none

/-- Takes the message of a batch out of the outbox; an error is dropped. -/
def withdraw (digest : Option (Octets 32)) : Step (State σ τ) Unit :=
  match digest with
  | some d => (onStorage (Outbox.acknowledge e.backend d)).ignore
  | none => pure ()

/-- Commits new records and writes and hands their message to publication.  The message is signed
and put into the outbox before anything is committed.  What was committed before a failure stays. -/
def finalize (tx : Transaction) (records : List Record) (writes : List StoreWrite) :
    Step (State σ τ) Unit := do
  match e.signer.sender tx with
  | .error _ => Step.fail .unsignedFinalize
  | .ok author => do
    let message ← Step.ofExcept (e.compose tx author writes)
    let digest ← e.deposit message
    match ← (e.commit records writes).attempt with
    | .error err => do
      e.withdraw digest
      Step.fail err
    | .ok () => do
      count .finalizeTotal
      enqueue message.toList
      count .finalizeDuration

/-! ## Publishing -/

/-- Publishes a message.  One that the topic accepts leaves the outbox; one that it refuses is
dropped here and stays in the outbox. -/
def publish (m : Message) : Step (State σ τ) Unit := do
  match ← (onTopic (e.topic.publish m)).attempt with
  | .ok () => do
    count .messagesPublished
    if e.keepsOutbox then (onStorage (Outbox.acknowledge e.backend m.digest)).ignore else pure ()
  | .error _ => count .messagesPublishFailed

/-- Publishes the next message that was handed to publication. -/
def publishNext : Step (State σ τ) Unit := do
  match ← Step.gets State.outgoing with
  | [] => pure ()
  | m :: rest => do
    Step.modify fun s => { s with outgoing := rest }
    e.publish m

end Engine
end SealedStore
