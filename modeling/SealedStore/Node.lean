import SealedStore.Backend.Memory
import SealedStore.Config.Basic
import SealedStore.Engine.Basic
import SealedStore.Redis.Url
/-!
# Nodes

A node is an engine that is assembled from a configuration: its keys, a backend of the configured
kind, and a topic of the configured kind.  What a server answers is a parameter.
-/
namespace SealedStore

namespace Node

/-- What a backend of any kind may keep. -/
structure Storage (ρ : Type) where
  memory : Memory
  /-- The embedded database. -/
  pairs : Table String Bytes
  link : Redis.Link ρ

/-- What a topic of any kind may keep. -/
structure Wire (ρ : Type) where
  hub : Hub Message
  channel : Redis.Channel ρ

end Node

/-- An engine and its state. -/
structure Node (ρ : Type) where
  engine : Engine (Node.Storage ρ) (Node.Wire ρ)
  state : Engine.State (Node.Storage ρ) (Node.Wire ρ)

namespace Node

/-- Refuses a text that names no server. -/
def checkUrl (refuse : String → StoreError) (url : String) : Except StoreError Unit :=
  if Redis.Url.isValid url then .ok () else .error (refuse "invalid server address")

variable {ρ : Type} (server : Redis.Server ρ)

/-- The backend of a configuration.  The embedded database keeps pairs, like
the store on a server. -/
def openBackend (c : Config) : Except StoreError (Backend (Storage ρ)) :=
  match c.engine.backend with
  | .memory => .ok (Memory.backend.within Storage.memory fun memory s => { s with memory })
  | .sled => .ok (KeyValue.ofTable.backend.within Storage.pairs fun pairs s => { s with pairs })
  | .redis => do
    checkUrl .backend c.storeSettings.url
    pure ((Redis.Store.keyValue server c.storeSettings).backend.within Storage.link fun link s =>
      { s with link })

/-- The topic of a configuration. -/
def openTopic (c : Config) : Except StoreError (Topic (Wire ρ)) :=
  match c.engine.transport with
  | .mock => .ok (Topic.ofHub.within Wire.hub fun hub s => { s with hub })
  | .redis => do
    checkUrl .transport c.topicSettings.url
    pure ((Redis.Channel.topic server c.topicSettings).within Wire.channel fun channel s =>
      { s with channel })

/-- The node of a configuration, not started, with a server in its first state. -/
def build (initial : ρ) (uuid : Uuid) (c : Config) : Except StoreError (Node ρ) := do
  let keys ← KeyRing.read c.engine.signingKeys
  let backend ← openBackend server c
  let topic ← openTopic server c
  pure
    { engine := ⟨backend, topic, keys.signer, uuid, c.engine.enableOutbox⟩
      state := .initial ⟨.empty, .empty, ⟨initial, false⟩⟩ ⟨.empty, ⟨initial, false, .empty⟩⟩ }

/-- The addresses that the node holds keys for. -/
def addresses (n : Node ρ) : List Address := n.engine.signer.addresses

/-- How a start of the engine ends, and the node after it. -/
def start (n : Node ρ) : Except StoreError Unit × Node ρ :=
  let r := n.engine.start.run n.state
  (r.1, { n with state := r.2 })

/-- How a stop of the engine ends, and the node after it. -/
def stop (n : Node ρ) : Except StoreError Unit × Node ρ :=
  let r := n.engine.stop.run n.state
  (r.1, { n with state := r.2 })

/-- Starts a node and stops it twice. -/
def cycle (n : Node ρ) : Except StoreError Unit := do
  let (started, n) := n.start
  started
  let (stopped, n) := n.stop
  stopped
  n.stop.1

end Node
end SealedStore
