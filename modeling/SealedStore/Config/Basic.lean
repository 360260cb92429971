import SealedStore.Logging
import SealedStore.Redis.Client
import SealedStore.Signer
/-!
# The configuration of a node

What a node is made of, its defaults, and which configurations are accepted.
-/
namespace SealedStore

/-- Why there is no configuration. -/
inductive ConfigError where
  | fileRead (reason : String)
  | fileWrite (reason : String)
  | parse (reason : String)
  | serialize (reason : String)
  | unknownKind (kind value : String)
  | invalidValue (reason : String)
  | validationFailed (reason : String)
deriving DecidableEq, Repr

/-- The message for people. -/
def ConfigError.message : ConfigError → String
  | fileRead reason => "Failed to read configuration file: " ++ reason
  | fileWrite reason => "Failed to write configuration file: " ++ reason
  | parse reason => "Failed to parse configuration: " ++ reason
  | serialize reason => "Failed to serialize configuration: " ++ reason
  | unknownKind kind value => "Unknown " ++ kind ++ ": " ++ value
  | invalidValue reason => "Invalid configuration value: " ++ reason
  | validationFailed reason => "Configuration validation failed: " ++ reason

/-- The name of the cause. -/
def ConfigError.name : ConfigError → String
  | .fileRead _ => "FileReadError"
  | .fileWrite _ => "FileWriteError"
  | .parse _ => "ParseError"
  | .serialize _ => "SerializeError"
  | .unknownKind .. => "UnknownKind"
  | .invalidValue _ => "InvalidValue"
  | .validationFailed _ => "ValidationFailed"

/-- Where a node keeps its records. -/
inductive BackendKind where
  | memory
  | redis
  | sled
deriving DecidableEq, Repr

namespace BackendKind

/-- Every kind. -/
def all : List BackendKind := [memory, redis, sled]

/-- The name of a kind. -/
def name : BackendKind → String
  | memory => "memory"
  | redis => "redis"
  | sled => "sled"

/-- The kind with a name. -/
def named? (s : String) : Option BackendKind := all.find? fun k => k.name = s

/-- A kind from its name in any case. -/
def parse (s : String) : Except ConfigError BackendKind :=
  match named? (Text.lower s) with
  | some k => .ok k
  | none => .error (.unknownKind "backend" (Text.lower s))

@[simp] theorem named?_name (k : BackendKind) : named? k.name = some k := by cases k <;> decide

end BackendKind

/-- How nodes send messages to each other. -/
inductive TransportKind where
  | mock
  | redis
deriving DecidableEq, Repr

namespace TransportKind

/-- Every kind. -/
def all : List TransportKind := [mock, redis]

/-- The name of a kind. -/
def name : TransportKind → String
  | mock => "mock"
  | redis => "redis"

/-- The kind with a name. -/
def named? (s : String) : Option TransportKind := all.find? fun k => k.name = s

/-- A kind from its name in any case. -/
def parse (s : String) : Except ConfigError TransportKind :=
  match named? (Text.lower s) with
  | some k => .ok k
  | none => .error (.unknownKind "transport" (Text.lower s))

@[simp] theorem named?_name (k : TransportKind) : named? k.name = some k := by cases k <;> decide

end TransportKind

/-- How the engine of a node is wired. -/
structure EngineSettings where
  backend : BackendKind
  transport : TransportKind
  /-- The keys of the node, in hexadecimal. -/
  signingKeys : List String
  enableOutbox : Bool
deriving DecidableEq, Repr

/-- The server that a backend and a transport may use. -/
structure ServerSettings where
  storeUrl : String
  pubsubUrl : String
  connectionTimeout : Duration
  responseTimeout : Duration
  valueTtl : Duration
deriving DecidableEq, Repr

/-- The log of a node. -/
structure LogOptions where
  level : String
  jsonFormat : Bool
  withTarget : Bool
deriving DecidableEq, Repr

/-- The configuration of a node. -/
structure Config where
  engine : EngineSettings
  server : ServerSettings
  /-- Where the embedded database is. -/
  databasePath : String
  logging : LogOptions
  metricsEnabled : Bool
deriving DecidableEq, Repr

namespace Config

/-- The configuration when nothing is said. -/
def default : Config where
  engine := ⟨.memory, .mock, [], false⟩
  server := ⟨Redis.defaultUrl, Redis.defaultUrl, .ofSeconds 5, .ofSeconds 5, .ofSeconds 86400⟩
  databasePath := "./data/confstore"
  logging := ⟨Level.default.name, false, true⟩
  metricsEnabled := true

/-- The settings of the store on a server. -/
def storeSettings (c : Config) : Redis.StoreSettings :=
  ⟨c.server.storeUrl, c.server.connectionTimeout, c.server.responseTimeout, c.server.valueTtl⟩

/-- The settings of the topic on a server. -/
def topicSettings (c : Config) : Redis.TopicSettings :=
  ⟨c.server.pubsubUrl, c.server.connectionTimeout⟩

/-- The settings of the log. -/
def logSettings (c : Config) : Except LoggingError LogSettings :=
  (Level.parse c.logging.level).map fun level => ⟨level, c.logging.withTarget, c.logging.jsonFormat⟩

/-- Refuses a configuration where a condition holds. -/
def refuse (condition : Bool) (reason : String) : Except ConfigError Unit :=
  if condition then .error (.validationFailed reason) else .ok ()

/-- Accepts a configuration whose parts can be set up: what it uses is named, its keys are keys, and
its log level is one. -/
def validate (c : Config) : Except ConfigError Unit := do
  refuse (c.engine.backend = .redis && c.server.storeUrl = "")
    "redis backend selected but store_url is empty"
  refuse (c.engine.transport = .redis && c.server.pubsubUrl = "")
    "redis transport selected but pubsub_url is empty"
  refuse (c.engine.backend = .redis && c.server.valueTtl.nanos = 0)
    "value_ttl must be greater than 0"
  refuse (c.engine.backend = .sled && c.databasePath = "") "sled backend selected but path is empty"
  match KeyRing.read c.engine.signingKeys with
  | .error e => throw (.validationFailed ("Invalid signing key: " ++ e.message))
  | .ok _ => pure ()
  match Level.parse c.logging.level with
  | .error _ => throw (.validationFailed ("Invalid log level: " ++ c.logging.level))
  | .ok _ => pure ()

end Config
end SealedStore
