import SealedStore.Backend.KeyValue
import SealedStore.Record.Identity
/-!
# The outbox

Messages that wait for publication, kept in the backend so that they outlive a crash: under the
reserved outbox record one list of digests, and each message under its digest.  A message is written
before it is listed and unlisted before it is blanked, so a listed digest always has its message.
Backends cannot remove a value; an acknowledged message is blanked instead.
-/
namespace SealedStore.Outbox

/-- The key of the list of digests. -/
def pendingKey : String := "pending"

/-- The key of a message. -/
def messageKey (digest : Octets 32) : String := "msg-" ++ Hex.plain digest.toList

variable {σ : Type} (b : Backend σ)

/-- The listed digests, oldest first; none if there is no list. -/
def readPending : Step σ (List (Octets 32)) := do
  match ← (b.retrieve Record.outbox pendingKey).attempt with
  | .ok raw => Step.ofExcept (KeyValue.decoded (KeyValue.decodeList? 32 raw))
  | .error e => if e.isNotFound then pure [] else Step.fail e

/-- Writes the list of digests. -/
def writePending (digests : List (Octets 32)) : Step σ Unit := do
  let _ ← b.store Record.outbox pendingKey (KeyValue.encodeList digests)

/-- Writes a message, or blanks it. -/
def writeMessage (digest : Octets 32) (raw : Bytes) : Step σ Unit := do
  let _ ← b.store Record.outbox (messageKey digest) raw

/-- Adds a message to those that wait. -/
def push (m : Message) : Step σ (Octets 32) := do
  writeMessage b m.digest m.encode
  let digests ← readPending b
  if digests.contains m.digest then pure m.digest
  else do
    writePending b (digests ++ [m.digest])
    pure m.digest

/-- Takes a message off those that wait, if it is one of them. -/
def acknowledge (digest : Octets 32) : Step σ Unit := do
  let digests ← readPending b
  if digests.contains digest then do
    writePending b (digests.filter (· ≠ digest))
    writeMessage b digest []
  else pure ()

/-- The messages with these digests, less those that cannot be read. -/
def readMessages : List (Octets 32) → Step σ (List Message)
  | [] => pure []
  | d :: ds => do
    let found ← (b.retrieve Record.outbox (messageKey d)).attempt
    let rest ← readMessages ds
    match found.toOption.bind Message.decode? with
    | some m => pure (m :: rest)
    | none => pure rest

/-- The messages that wait, oldest first. -/
def pending : Step σ (List Message) := do readMessages b (← readPending b)

end SealedStore.Outbox
