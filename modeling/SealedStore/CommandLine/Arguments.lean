import SealedStore.Duration
import SealedStore.Logging
/-!
# The arguments of the program

Options stand in front of the command.  An option's value is its next argument, unless that looks
like an option, or is attached to it.  An argument is judged when the next one is read, so that
asking a command for help is answered even behind an option whose value is wrong.
-/
namespace SealedStore.CommandLine

/-- What the program is asked to do. -/
inductive Command where
  /-- Run a node until it is told to stop. -/
  | run
  /-- Show the configuration. -/
  | checkConfig
deriving DecidableEq, Repr

/-- What the program is told beside its command. -/
structure Options where
  config : Option String
  level : Option Level
  jsonLogs : Bool
  drainTimeout : Duration
deriving DecidableEq

/-- What a text about the program is about. -/
inductive Subject where
  | program
  | run
  | checkConfig
  | help
deriving DecidableEq, Repr

/-- What the arguments ask for. -/
inductive Request where
  | perform (o : Options) (c : Command)
  | showHelp (s : Subject)
  | showVersion
  /-- The arguments are not understood. -/
  | refuse
deriving DecidableEq

/-- An option that takes a value. -/
inductive Valued where
  | config
  | level
  | drainTimeout
deriving DecidableEq, Repr

/-- The options read so far. -/
structure Given where
  config : Option String
  level : Option Level
  jsonLogs : Bool
  drainTimeout : Option Duration
deriving DecidableEq

namespace Given

/-- No options. -/
def nothing : Given := ⟨none, none, false, none⟩

/-- A field that is given a value for the first time. -/
def first {α : Type} (old : Option α) (new : Option α) : Option α :=
  if old.isSome then none else new

/-- The options with a value more.  A value must be of its kind, and no option is given twice. -/
def assign (g : Given) (v : Valued) (s : String) : Option Given :=
  match v with
  | .config =>
    (first g.config (if s = "" then none else some s)).map fun x => { g with config := some x }
  | .level => (first g.level (Level.parse s).toOption).map fun x => { g with level := some x }
  | .drainTimeout =>
    (first g.drainTimeout (Duration.read s).toOption).map fun x => { g with drainTimeout := some x }

/-- The options with JSON logs, asked for once. -/
def withJson (g : Given) : Option Given :=
  if g.jsonLogs then none else some { g with jsonLogs := true }

/-- The options with the last one judged. -/
def settle (g : Given) : Option (Valued × Option String) → Option Given
  | none => some g
  | some (v, some s) => g.assign v s
  | some (_, none) => none

/-- The options with a default for what was not given. -/
def options (g : Given) : Options :=
  ⟨g.config, g.level, g.jsonLogs, g.drainTimeout.getD (.ofSeconds 10)⟩

end Given

/-- Whether an argument looks like an option. -/
def isOption (s : String) : Bool :=
  match s.toList with
  | '-' :: _ :: _ => true
  | _ => false

/-- The arguments of a command: none, or a question for help. -/
def readRest (subject : Subject) : List String → Option Request
  | [] => none
  | ["--"] => none
  | a :: _ =>
    match a.toList with
    | '-' :: 'h' :: _ => some (.showHelp subject)
    | _ => if a = "--help" then some (.showHelp subject) else some .refuse

/-- The subjects that help is asked for. -/
def readSubject : List String → Request
  | [] => .showHelp .program
  | ["run"] => .showHelp .run
  | ["check-config"] => .showHelp .checkConfig
  | ["help"] => .showHelp .help
  | _ => .refuse

/-- What one option does: a value that is attached or awaited, a switch, or an end. -/
inductive Effect where
  | value (v : Valued) (attached : Option String)
  | json
  | ending (r : Request)

/-- The option with a long name. -/
def longOption (name : String) (attached : Option String) : Effect :=
  match name, attached with
  | "config", a => .value .config a
  | "log-level", a => .value .level a
  | "drain-timeout", a => .value .drainTimeout a
  | "json-logs", none => .json
  | "help", none => .ending (.showHelp .program)
  | "version", none => .ending .showVersion
  | _, _ => .ending .refuse

/-- A value that follows the letter of an option. -/
def attachment : List Char → Option String
  | [] => none
  | '=' :: r => some (String.ofList r)
  | r => some (String.ofList r)

/-- The option of an argument behind its first dash. -/
def effect : List Char → Effect
  | '-' :: r =>
    longOption (String.ofList (r.takeWhile (· ≠ '=')))
      (match r.dropWhile (· ≠ '=') with
        | _ :: value => some (String.ofList value)
        | [] => none)
  | 'c' :: r => .value .config (attachment r)
  | 'l' :: r => .value .level (attachment r)
  | 'h' :: _ => .ending (.showHelp .program)
  | 'V' :: _ => .ending .showVersion
  | _ => .ending .refuse

/-- A request with the options judged, if they are right. -/
def judged (g : Option Given) (k : Given → Request) : Request :=
  match g with
  | some g => k g
  | none => .refuse

/-- The request of the arguments that are left, with the options read and the last
one not judged yet. -/
def readArguments (g : Given) (pending : Option (Valued × Option String)) : List String → Request
  | [] => judged (g.settle pending) fun g => .perform g.options .run
  | a :: r =>
    let command (c : Command) (subject : Subject) : Request :=
      match readRest subject r with
      | some request => request
      | none => judged (g.settle pending) fun g => .perform g.options c
    match pending, isOption a with
    | some (v, none), false => readArguments g (some (v, some a)) r
    | pending, true =>
      if a = "--" then
        if r.isEmpty then judged (g.settle pending) fun g => .perform g.options .run else .refuse
      else
        match g.settle pending with
        | none => .refuse
        | some g =>
          match effect (a.toList.drop 1) with
          | .value v none => readArguments g (some (v, none)) r
          | .value v (some s) =>
            match g.assign v s with
            | some g => readArguments g none r
            | none => .refuse
          | .json =>
            match g.withJson with
            | some g => readArguments g none r
            | none => .refuse
          | .ending request => request
    | _, false =>
      match a with
      | "run" => command .run .run
      | "check-config" => command .checkConfig .checkConfig
      | "help" => readSubject r
      | _ => .refuse

/-- What the arguments of the program ask for. -/
def parse (arguments : List String) : Request := readArguments .nothing none arguments

/-! ## Texts about the program -/

/-- The version of the program. -/
def version : String := "confstore 0.1.0"

/-- The help on a subject. -/
def help : Subject → List String
  | .program =>
    ["Usage: confstore [OPTIONS] [COMMAND]", "",
      "Commands:",
      "  run           Run the node until SIGINT/SIGTERM (default)",
      "  check-config  Load and validate configuration, then print it",
      "  help          Print this message or the help of the given subcommand(s)", "",
      "Options:",
      "  -c, --config <CONFIG>                " ++
        "TOML configuration file; defaults plus CONFSTORE_* variables otherwise",
      "  -l, --log-level <LOG_LEVEL>          " ++
        "Override the configured log level (trace, debug, info, warn, error)",
      "      --json-logs                      Enable JSON formatted logging",
      "      --drain-timeout <DRAIN_TIMEOUT>  " ++
        "Time allowed for the engine to stop after a signal [default: 10s]",
      "  -h, --help                           Print help",
      "  -V, --version                        Print version"]
  | .run =>
    ["Run the node until SIGINT/SIGTERM (default)", "", "Usage: confstore run", "",
      "Options:", "  -h, --help  Print help"]
  | .checkConfig =>
    ["Load and validate configuration, then print it", "", "Usage: confstore check-config", "",
      "Options:", "  -h, --help  Print help"]
  | .help =>
    ["Print this message or the help of the given subcommand(s)", "",
      "Usage: confstore help [COMMAND]...", "",
      "Arguments:", "  [COMMAND]...  Print help for the subcommand(s)"]

end SealedStore.CommandLine
