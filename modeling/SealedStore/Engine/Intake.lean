import SealedStore.Engine.Basic
/-!
# Messages from other nodes

A message is judged as a whole before any of it is applied, and the verdict depends on the message
and on the engine's identity alone, never on what is stored.  A write of an accepted message that
cannot be kept is skipped; the others are applied.
-/
namespace SealedStore.Engine

variable {σ τ : Type} (e : Engine σ τ)

/-- What is done with a message that is not rejected. -/
inductive Verdict where
  /-- The engine's own message. -/
  | echo
  /-- A message of another engine. -/
  | accept
deriving DecidableEq, Repr

/-- Who signed a message: the sender of its transaction. -/
def author (m : Message) : Except StoreError Address := do
  let signedBy ← e.signer.recover m.signableBytes m.signature
  let sender ← e.signer.sender m.sourceTx
  if signedBy = sender then pure signedBy else throw (.signerMismatch sender signedBy)

/-- Whether a message is the engine's own: it bears its name and one of its addresses signed it. -/
def isOwn (m : Message) (author : Address) : Bool :=
  m.origin = e.uuid && e.signer.addresses.contains author

/-- A record in a message must have its derived id, and its creator's signature. -/
def checkRecord (r : Record) : Except StoreError Unit := do
  if r.derivedId ≠ r.id then throw (.idMismatch r.id r.derivedId)
  match r.creationTx with
  | none =>
    throw
      (.unsignedTransaction ("record " ++ Hex.text r.id.toList ++ " has no creation transaction"))
  | some tx => do
    let creator ← e.signer.sender tx
    let signedBy ← e.signer.recover r.signableBytes r.signature
    if signedBy ≠ creator then throw (.signerMismatch creator signedBy)

/-- A write must be of a genuine record, in a message of an account that may replicate it, and by an
account that may write under it. -/
def checkWrite (author : Address) (w : StoreWrite) : Except StoreError Unit := do
  e.checkRecord w.record
  if !w.record.isStore author then throw (.unauthorized w.record.id author .replicate)
  checkPeeker w.record w.record.id w.caller .store

/-- One check for each write; the first that fails decides. -/
def checkWrites (author : Address) : List StoreWrite → Except StoreError Unit
  | [] => .ok ()
  | w :: ws => do
    e.checkWrite author w
    checkWrites author ws

/-- What becomes of a message. -/
def judge (m : Message) : Except StoreError Verdict := do
  let author ← e.author m
  if e.isOwn m author then pure .echo
  else do
    e.checkWrites author m.writes
    pure .accept

/-- Keeps the record of a write, if it is not present, and its value. -/
def applyWrite (w : StoreWrite) : Step (State σ τ) Unit := do
  match ← (onStorage (e.backend.init w.record)).attempt with
  | .ok () => do
    count .recordsInitialized
    keep
  | .error err => if err.isAlreadyPresent then keep else count .writesReplicationFailed
where
  /-- Keeps the value of the write. -/
  keep : Step (State σ τ) Unit := do
    match ← (onStorage (e.backend.store w.record w.key w.value)).attempt with
    | .ok _ => count .writesReplicated
    | .error _ => count .writesReplicationFailed

/-- Judges a message and applies it if it is accepted. -/
def receive (m : Message) : Step (State σ τ) Unit := do
  count .messagesReceived
  match ← Step.ofExcept (e.judge m) with
  | .echo => count .messagesEchoDropped
  | .accept => Step.forEach m.writes e.applyWrite

/-- Receives a message that the subscription brought; a rejected one is counted. -/
def consume (m : Message) : Step (State σ τ) Unit := do
  match ← (e.receive m).attempt with
  | .ok () => pure ()
  | .error _ => count .messagesRejected

/-- Consumes the next message of the subscription and says whether there was one. -/
def consumeNext : Step (State σ τ) Bool := do
  match ← Step.gets State.subscription with
  | none => pure false
  | some subscription => do
    let next ← (fun s =>
      let r := e.topic.receive subscription s.topic
      (.ok r.1, { s with topic := r.2 }) : Step (State σ τ) (Option Message))
    match next with
    | none => pure false
    | some m => do
      e.consume m
      pure true

end SealedStore.Engine
