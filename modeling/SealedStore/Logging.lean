import SealedStore.Text.Lowercase
/-!
# Log levels

How severe a log line is, and which lines a node logs.
-/
namespace SealedStore

/-- The severity of a log line, and the least severity that is logged. -/
inductive Level where
  | trace
  | debug
  | info
  | warn
  | error
deriving DecidableEq, Repr

/-- Why logging cannot be set up. -/
inductive LoggingError where
  | initializationFailed (reason : String)
  | invalidConfiguration (reason : String)
deriving DecidableEq, Repr

/-- The message for people. -/
def LoggingError.message : LoggingError → String
  | initializationFailed reason => "Failed to initialize logging: " ++ reason
  | invalidConfiguration reason => "Invalid logging configuration: " ++ reason

/-- The name of the cause. -/
def LoggingError.name : LoggingError → String
  | initializationFailed _ => "InitializationFailed"
  | invalidConfiguration _ => "InvalidConfiguration"

namespace Level

/-- Every level, the least severe first. -/
def all : List Level := [trace, debug, info, warn, error]

/-- The name of a level. -/
def name : Level → String
  | trace => "trace"
  | debug => "debug"
  | info => "info"
  | warn => "warn"
  | error => "error"

/-- How severe a level is. -/
def severity : Level → Nat
  | trace => 0
  | debug => 1
  | info => 2
  | warn => 3
  | error => 4

/-- The level when nothing is said. -/
def default : Level := info

/-- A level from its name in any case; `warning` is another name of `warn`. -/
def parse (s : String) : Except LoggingError Level :=
  let lower := Text.lower s
  if lower = "warning" then .ok warn
  else match all.find? fun l => l.name = lower with
    | some l => .ok l
    | none => .error (.invalidConfiguration ("unknown log level: " ++ lower))

end Level

/-- Which lines are logged, and how they are written. -/
structure LogSettings where
  level : Level
  /-- Whether a line names the component that it comes from. -/
  withTarget : Bool
  jsonFormat : Bool
deriving DecidableEq, Repr

/-- Whether a line of this severity is logged. -/
def LogSettings.logs (s : LogSettings) (l : Level) : Bool := s.level.severity ≤ l.severity

end SealedStore
