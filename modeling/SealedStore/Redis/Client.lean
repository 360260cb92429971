import SealedStore.Backend.KeyValue
import SealedStore.Topic
import SealedStore.Duration
/-!
# A store and a topic on a server

A client holds at most one connection, opened by `start` and given up by `stop`, and refuses
commands without one.  Every key is written with an expiry.  The server is a parameter: what it
answers to a connection and to a command, or that it does not answer in time.
-/
namespace SealedStore.Redis

/-- What is asked of a server. -/
inductive Command where
  | get (key : String)
  /-- Sets a key that expires after some seconds, perhaps only where nothing is. -/
  | set (key : String) (value : Bytes) (ifAbsent : Bool) (seconds : Nat)
  | publish (channel : String) (payload : Bytes)
deriving DecidableEq

/-- What a server replies. -/
inductive Reply where
  | done
  | nothing
  | bytes (b : Bytes)
  | number (n : Nat)
deriving DecidableEq

/-- How an exchange with a server ends. -/
inductive Exchange (α : Type) where
  | answered (a : α)
  | refused (reason : String)
  /-- Nothing came in time. -/
  | silent
deriving DecidableEq

/-- What a server does. -/
structure Server (σ : Type) where
  connect : σ → Exchange Unit × σ
  execute : Command → σ → Exchange Reply × σ

/-- A server, and whether a client is connected to it. -/
structure Link (σ : Type) where
  server : σ
  connected : Bool

/-- The settings of a store on a server. -/
structure StoreSettings where
  url : String
  connectionTimeout : Duration
  responseTimeout : Duration
  /-- How long a key lives. -/
  ttl : Duration
deriving DecidableEq

/-- The settings of a topic on a server. -/
structure TopicSettings where
  url : String
  connectionTimeout : Duration
deriving DecidableEq

/-- Where a server is expected. -/
def defaultUrl : String := "redis://127.0.0.1:6379"

/-- The settings of a store when nothing is said. -/
def StoreSettings.default : StoreSettings :=
  ⟨defaultUrl, .ofSeconds 5, .ofSeconds 5, .ofSeconds 86400⟩

/-- The settings of a topic when nothing is said. -/
def TopicSettings.default : TopicSettings := ⟨defaultUrl, .ofSeconds 5⟩

/-- The seconds that a key lives: the whole ones, and at least one. -/
def StoreSettings.expiry (settings : StoreSettings) : Nat := max settings.ttl.seconds 1

section

variable {σ : Type} (server : Server σ)

/-! ## The store -/

namespace Store

variable (settings : StoreSettings)

/-- Opens the connection. -/
def start : Step (Link σ) Unit := fun l =>
  match server.connect l.server with
  | (.answered (), s) => (.ok (), ⟨s, true⟩)
  | (.refused reason, s) => (.error (.backend reason), ⟨s, l.connected⟩)
  | (.silent, s) => (.error (.backend "redis connection timed out"), ⟨s, l.connected⟩)

/-- Gives the connection up. -/
def stop : Step (Link σ) Unit := fun l => (.ok (), { l with connected := false })

/-- Executes a command over the connection. -/
def command (c : Command) : Step (Link σ) Reply := fun l =>
  if l.connected then
    match server.execute c l.server with
    | (.answered reply, s) => (.ok reply, ⟨s, true⟩)
    | (.refused reason, s) => (.error (.backend reason), ⟨s, true⟩)
    | (.silent, s) =>
      (.error (.backend ("redis command timed out after " ++ settings.responseTimeout.exact)),
        ⟨s, true⟩)
  else (.error (.lifecycle "redis store is not started"), l)

/-- The key-value store on a server. -/
def keyValue : KeyValue (Link σ) where
  start := start server
  stop := stop
  get key := do
    match ← command server settings (.get key) with
    | .bytes b => pure (some b)
    | _ => pure none
  put key value := do
    let _ ← command server settings (.set key value false settings.expiry)
  putIfAbsent key value := do
    pure ((← command server settings (.set key value true settings.expiry)) ≠ .nothing)

end Store

/-! ## The topic -/

/-- A topic on a server: the hub gives out locally what the server delivers. -/
structure Channel (σ : Type) where
  server : σ
  running : Bool
  hub : Hub Message

namespace Channel

variable (settings : TopicSettings)

/-- Opens the connections. -/
def start : Step (Channel σ) Unit := fun c =>
  if c.running then (.error (.lifecycle "redis transport already started"), c)
  else
    match server.connect c.server with
    | (.answered (), s) => (.ok (), { c with server := s, running := true })
    | (.refused reason, s) => (.error (.transport reason), { c with server := s })
    | (.silent, s) =>
      (.error (.transport ("redis pub/sub connection timed out after " ++
        settings.connectionTimeout.exact)), { c with server := s })

/-- Sends a message to the channel. -/
def publish (m : Message) : Step (Channel σ) Unit := fun c =>
  if c.running then
    match server.execute (.publish Topic.channel m.encode) c.server with
    | (.answered _, s) => (.ok (), { c with server := s })
    | (.refused reason, s) => (.error (.transport reason), { c with server := s })
    | (.silent, s) => (.error (.transport "redis server did not answer"), { c with server := s })
  else (.error (.lifecycle "redis transport is not started"), c)

/-- A payload that the server delivers: a message, or dropped. -/
def deliver (payload : Bytes) (c : Channel σ) : Channel σ :=
  match c.running, Message.decode? payload with
  | true, some m => { c with hub := c.hub.publish m }
  | _, _ => c

/-- The topic on a server. -/
def topic : Topic (Channel σ) where
  start := start server settings
  stop := fun c => (.ok (), { c with running := false })
  subscribe := fun c => (.ok c.hub.subscribe.1, { c with hub := c.hub.subscribe.2 })
  publish := publish server
  receive s := fun c => ((c.hub.receive s).1, { c with hub := (c.hub.receive s).2 })
  cancel s := fun c => { c with hub := c.hub.cancel s }

end Channel

end

/-! ## Servers -/

/-- A server that no connection reaches. -/
def unreachable : Server Unit where
  connect _ := (.refused "connection refused", ())
  execute _ _ := (.refused "connection refused", ())

/-- Keys with the second in which each expires, and the current second. -/
structure Expiring where
  entries : Table String (Bytes × Nat)
  now : Nat
deriving DecidableEq

namespace Expiring

/-- The value of a key that has not expired. -/
def find? (e : Expiring) (key : String) : Option Bytes :=
  match e.entries.find? key with
  | some (value, expiry) => if e.now < expiry then some value else none
  | none => none

/-- The keys with a value that lives for some seconds. -/
def set (e : Expiring) (key : String) (value : Bytes) (seconds : Nat) : Expiring :=
  { e with entries := e.entries.insert key (value, e.now + seconds) }

/-- A server that keeps keys until they expire. -/
def server : Server Expiring where
  connect e := (.answered (), e)
  execute c e :=
    match c with
    | .get key => (.answered ((e.find? key).elim .nothing .bytes), e)
    | .set key value ifAbsent seconds =>
      if ifAbsent && (e.find? key).isSome then (.answered .nothing, e)
      else (.answered .done, e.set key value seconds)
    | .publish _ _ => (.answered (.number 0), e)

end Expiring
end SealedStore.Redis
