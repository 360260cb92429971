import SealedStore.Config.Variable
import SealedStore.Octets
import SealedStore.Toml.Reader
import SealedStore.Toml.Printer
/-!
# Configurations as documents

A configuration is written as a document with a table for each of its parts.  In a document that is
read any table and any entry may be missing, and others are passed over.
-/
namespace SealedStore.Config

open Toml (Value Setting Section)

/-! ## Writing -/

/-- A configuration as a document. -/
def sections (c : Config) : List Section :=
  [⟨"engine",
    [("backend", .text c.engine.backend.name), ("transport", .text c.engine.transport.name),
      ("signing_keys", .texts c.engine.signingKeys),
      ("enable_outbox", .flag c.engine.enableOutbox)]⟩,
    ⟨"redis",
      [("store_url", .text c.server.storeUrl), ("pubsub_url", .text c.server.pubsubUrl),
        ("connection_timeout", .text c.server.connectionTimeout.text),
        ("response_timeout", .text c.server.responseTimeout.text),
        ("value_ttl", .text c.server.valueTtl.text)]⟩,
    ⟨"sled", [("path", .text c.databasePath)]⟩,
    ⟨"logging",
      [("level", .text c.logging.level), ("json_format", .flag c.logging.jsonFormat),
        ("with_target", .flag c.logging.withTarget)]⟩,
    ⟨"metrics", [("enabled", .flag c.metricsEnabled)]⟩]

/-- The text of a configuration. -/
def render (c : Config) : String := Toml.render c.sections

/-! ## Reading -/

/-- An entry that is read, or its default where it is missing. -/
def readOr {α : Type} (read : Value → Option α) (default : α) : Option Value → Option α
  | none => some default
  | some v => read v

/-- A kind by its name. -/
def readKind {α : Type} (named? : String → Option α) (v : Value) : Option α := v.choice?.bind named?

/-- A list of texts. -/
def readTexts (v : Value) : Option (List String) := do (← v.items?).mapM Value.text?

/-- A duration. -/
def readSpan (v : Value) : Option Duration := do (Duration.read (← v.text?)).toOption

/-- The wiring of an engine. -/
def readEngine (v : Value) : Option EngineSettings := do
  let d := default.engine
  match ← v.fields? ["backend", "transport", "signing_keys", "enable_outbox"] with
  | [backend, transport, keys, outbox] =>
    some ⟨← readOr (readKind BackendKind.named?) d.backend backend,
      ← readOr (readKind TransportKind.named?) d.transport transport,
      ← readOr readTexts d.signingKeys keys, ← readOr Value.flag? d.enableOutbox outbox⟩
  | _ => none

/-- A server. -/
def readServer (v : Value) : Option ServerSettings := do
  let d := default.server
  match ← v.fields? ["store_url", "pubsub_url", "connection_timeout",
    "response_timeout", "value_ttl"] with
  | [store, pubsub, connection, response, ttl] =>
    some ⟨← readOr Value.text? d.storeUrl store, ← readOr Value.text? d.pubsubUrl pubsub,
      ← readOr readSpan d.connectionTimeout connection,
      ← readOr readSpan d.responseTimeout response, ← readOr readSpan d.valueTtl ttl⟩
  | _ => none

/-- The log. -/
def readLogging (v : Value) : Option LogOptions := do
  let d := default.logging
  match ← v.fields? ["level", "json_format", "with_target"] with
  | [level, format, target] =>
    some ⟨← readOr Value.text? d.level level, ← readOr Value.flag? d.jsonFormat format,
      ← readOr Value.flag? d.withTarget target⟩
  | _ => none

/-- A structure with one field. -/
def readOnly {α : Type} (name : String) (read : Value → Option α) (default : α)
    (v : Value) : Option α := do
  match ← v.fields? [name] with
  | [field] => readOr read default field
  | _ => none

/-- The configuration that a document describes. -/
def ofValue? (v : Value) : Option Config := do
  match ← v.fields? ["engine", "redis", "sled", "logging", "metrics"] with
  | [engine, server, database, logging, metrics] =>
    some ⟨← readOr readEngine default.engine engine, ← readOr readServer default.server server,
      ← readOr (readOnly "path" Value.text? default.databasePath) default.databasePath database,
      ← readOr readLogging default.logging logging,
      ← readOr (readOnly "enabled" Value.flag? default.metricsEnabled)
        default.metricsEnabled metrics⟩
  | _ => none

/-- The configuration of a text. -/
def parse (s : String) : Except ConfigError Config :=
  match (Toml.parse? s).bind ofValue? with
  | some c => .ok c
  | none => .error (.parse "malformed document")

/-! ## Loading -/

/-- A file that may be missing. -/
abbrev File := Option Bytes

/-- The text of a file. -/
def readText : File → Except ConfigError String
  | none => .error (.fileRead "No such file or directory (os error 2)")
  | some b =>
    match Bytes.toText? b with
    | some s => .ok s
    | none => .error (.fileRead "stream did not contain valid UTF-8")

/-- A valid configuration under an environment. -/
def complete (env : Environment) (c : Config) : Except ConfigError Config := do
  let (outcome, c) := c.overlay env
  outcome
  c.validate
  pure c

/-- The configuration of an environment. -/
def ofEnvironment (env : Environment) : Except ConfigError Config := complete env default

/-- The configuration of a file under an environment. -/
def ofFile (file : File) (env : Environment) : Except ConfigError Config := do
  complete env (← parse (← readText file))

/-! ## Saving -/

/-- What a file holds after a configuration was saved in it, if its directory exists. -/
def save (c : Config) (hasDirectory : Bool) : Except ConfigError Bytes :=
  if hasDirectory then .ok (Bytes.ofText c.render)
  else .error (.fileWrite "No such file or directory (os error 2)")

end SealedStore.Config
