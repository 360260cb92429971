import SealedStore.Config.Document
import SealedStore.Json.Basic
/-!
# Configurations as JSON

The same tables and entries as in a document.  Durations are texts.
-/
namespace SealedStore

/-- A setting of a document as JSON. -/
def Toml.Setting.toJson : Toml.Setting → Json
  | text s => .text s
  | flag b => .bool b
  | texts items => .array (items.map .text)

/-- A configuration as JSON. -/
def Config.toJson (c : Config) : Json :=
  .record (c.sections.map fun s => (s.name, .record (s.settings.map fun e => (e.1, e.2.toJson))))

/-- The settings of a store on a server as JSON. -/
def Redis.StoreSettings.toJson (s : Redis.StoreSettings) : Json :=
  .record [("url", .text s.url), ("connection_timeout", .text s.connectionTimeout.text),
    ("response_timeout", .text s.responseTimeout.text), ("ttl", .text s.ttl.text)]

/-- The settings of a topic on a server as JSON. -/
def Redis.TopicSettings.toJson (s : Redis.TopicSettings) : Json :=
  .record [("url", .text s.url), ("connection_timeout", .text s.connectionTimeout.text)]

/-- The settings of the log as JSON. -/
def LogSettings.toJson (s : LogSettings) : Json :=
  .record [("level", .text s.level.name), ("json_format", .bool s.jsonFormat),
    ("with_target", .bool s.withTarget)]

end SealedStore
