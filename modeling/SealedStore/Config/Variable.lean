import SealedStore.Config.Basic
/-!
# Environment variables over a configuration

Each variable names one field, has values of the type of that field, and is read from text.
An overlay reads the variables in a fixed order and stops at the first that does not read;
what it changed before stays.
-/
namespace SealedStore

namespace Config

/-- A variable of the environment. -/
inductive Variable where
  | backend
  | transport
  | signingKeys
  | enableOutbox
  | storeUrl
  | pubsubUrl
  | connectionTimeout
  | responseTimeout
  | valueTtl
  | databasePath
  | level
  | jsonFormat
  | withTarget
  | metricsEnabled
deriving DecidableEq, Repr

namespace Variable

/-- Every variable, in the order in which they are read. -/
def all : List Variable :=
  [backend, transport, signingKeys, enableOutbox, storeUrl, pubsubUrl,
    connectionTimeout, responseTimeout, valueTtl, databasePath, level, jsonFormat,
    withTarget, metricsEnabled]

/-- The name of a variable in the environment. -/
def name : Variable → String
  | backend => "CONFSTORE_ENGINE_BACKEND"
  | transport => "CONFSTORE_ENGINE_TRANSPORT"
  | signingKeys => "CONFSTORE_ENGINE_SIGNING_KEYS"
  | enableOutbox => "CONFSTORE_ENGINE_ENABLE_OUTBOX"
  | storeUrl => "CONFSTORE_REDIS_STORE_URL"
  | pubsubUrl => "CONFSTORE_REDIS_PUBSUB_URL"
  | connectionTimeout => "CONFSTORE_REDIS_CONNECTION_TIMEOUT"
  | responseTimeout => "CONFSTORE_REDIS_RESPONSE_TIMEOUT"
  | valueTtl => "CONFSTORE_REDIS_VALUE_TTL"
  | databasePath => "CONFSTORE_SLED_PATH"
  | level => "CONFSTORE_LOGGING_LEVEL"
  | jsonFormat => "CONFSTORE_LOGGING_JSON_FORMAT"
  | withTarget => "CONFSTORE_LOGGING_WITH_TARGET"
  | metricsEnabled => "CONFSTORE_METRICS_ENABLED"

/-- The values of the field of a variable. -/
def Field : Variable → Type
  | backend => BackendKind
  | transport => TransportKind
  | signingKeys => List String
  | enableOutbox | jsonFormat | withTarget | metricsEnabled => Bool
  | storeUrl | pubsubUrl | databasePath | level => String
  | connectionTimeout | responseTimeout | valueTtl => Duration

/-- A truth value, in lower case. -/
def readFlag (label s : String) : Except ConfigError Bool :=
  if s = "true" then .ok true
  else if s = "false" then .ok false
  else .error
    (.invalidValue ("Invalid " ++ label ++
      ": provided string was not \x60true\x60 or \x60false\x60"))

/-- A duration. -/
def readDuration (label s : String) : Except ConfigError Duration :=
  match Duration.read s with
  | .ok d => .ok d
  | .error e => .error (.invalidValue ("Invalid " ++ label ++ ": " ++ e.message))

/-- Texts between commas, without the blanks around them; empty ones are dropped. -/
def readList (s : String) : List String :=
  ((Text.splitChars ',' s.toList).map fun p => String.ofList (Text.trimChars p)).filter (· ≠ "")

/-- The value of a variable from its text. -/
def read : (v : Variable) → String → Except ConfigError v.Field
  | backend, s => BackendKind.parse s
  | transport, s => TransportKind.parse s
  | signingKeys, s => .ok (readList s)
  | enableOutbox, s => readFlag "outbox flag" s
  | storeUrl, s => .ok s
  | pubsubUrl, s => .ok s
  | connectionTimeout, s => readDuration "connection timeout" s
  | responseTimeout, s => readDuration "response timeout" s
  | valueTtl, s => readDuration "value ttl" s
  | databasePath, s => .ok s
  | level, s => .ok s
  | jsonFormat, s => readFlag "JSON flag" s
  | withTarget, s => readFlag "target flag" s
  | metricsEnabled, s => readFlag "metrics flag" s

/-- The field of a variable. -/
def get : (v : Variable) → Config → v.Field
  | backend, c => c.engine.backend
  | transport, c => c.engine.transport
  | signingKeys, c => c.engine.signingKeys
  | enableOutbox, c => c.engine.enableOutbox
  | storeUrl, c => c.server.storeUrl
  | pubsubUrl, c => c.server.pubsubUrl
  | connectionTimeout, c => c.server.connectionTimeout
  | responseTimeout, c => c.server.responseTimeout
  | valueTtl, c => c.server.valueTtl
  | databasePath, c => c.databasePath
  | level, c => c.logging.level
  | jsonFormat, c => c.logging.jsonFormat
  | withTarget, c => c.logging.withTarget
  | metricsEnabled, c => c.metricsEnabled

/-- The configuration with a new value in the field of a variable. -/
def set : (v : Variable) → v.Field → Config → Config
  | backend, x, c => { c with engine := { c.engine with backend := x } }
  | transport, x, c => { c with engine := { c.engine with transport := x } }
  | signingKeys, x, c => { c with engine := { c.engine with signingKeys := x } }
  | enableOutbox, x, c => { c with engine := { c.engine with enableOutbox := x } }
  | storeUrl, x, c => { c with server := { c.server with storeUrl := x } }
  | pubsubUrl, x, c => { c with server := { c.server with pubsubUrl := x } }
  | connectionTimeout, x, c => { c with server := { c.server with connectionTimeout := x } }
  | responseTimeout, x, c => { c with server := { c.server with responseTimeout := x } }
  | valueTtl, x, c => { c with server := { c.server with valueTtl := x } }
  | databasePath, x, c => { c with databasePath := x }
  | level, x, c => { c with logging := { c.logging with level := x } }
  | jsonFormat, x, c => { c with logging := { c.logging with jsonFormat := x } }
  | withTarget, x, c => { c with logging := { c.logging with withTarget := x } }
  | metricsEnabled, x, c => { c with metricsEnabled := x }

@[simp] theorem get_set (v : Variable) (x : v.Field) (c : Config) : v.get (v.set x c) = x := by
  cases v <;> rfl

theorem get_set_of_ne {v w : Variable} (h : w ≠ v) (x : v.Field) (c : Config) :
    w.get (v.set x c) = w.get c := by
  cases v <;> cases w <;> first | rfl | exact absurd rfl h

/-- A configuration is known by its fields. -/
theorem ext_get {c d : Config} (h : ∀ v : Variable, v.get c = v.get d) : c = d := by
  obtain ⟨⟨_, _, _, _⟩, ⟨_, _, _, _, _⟩, _, ⟨_, _, _⟩, _⟩ := c
  obtain ⟨⟨_, _, _, _⟩, ⟨_, _, _, _, _⟩, _, ⟨_, _, _⟩, _⟩ := d
  have h1 := h backend
  have h2 := h transport
  have h3 := h signingKeys
  have h4 := h enableOutbox
  have h5 := h storeUrl
  have h6 := h pubsubUrl
  have h7 := h connectionTimeout
  have h8 := h responseTimeout
  have h9 := h valueTtl
  have h10 := h databasePath
  have h11 := h level
  have h12 := h jsonFormat
  have h13 := h withTarget
  have h14 := h metricsEnabled
  simp only [get] at h1 h2 h3 h4 h5 h6 h7 h8 h9 h10 h11 h12 h13 h14
  subst_vars
  rfl

end Variable

/-! ## Overlays -/

/-- The values of variables in an environment. -/
abbrev Environment := String → Option String

/-- A configuration under some variables of an environment, and why the last
one read has no value. -/
def overlayWith (env : Environment) : List Variable → Config → Except ConfigError Unit × Config
  | [], c => (.ok (), c)
  | v :: r, c =>
    match env v.name with
    | none => overlayWith env r c
    | some s =>
      match v.read s with
      | .error e => (.error e, c)
      | .ok x => overlayWith env r (v.set x c)

/-- A configuration under an environment, and why the last variable read has no value. -/
def overlay (env : Environment) (c : Config) : Except ConfigError Unit × Config :=
  overlayWith env Variable.all c

end Config
end SealedStore
