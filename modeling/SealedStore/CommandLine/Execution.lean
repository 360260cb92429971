import SealedStore.CommandLine.Arguments
import SealedStore.Config.Document
import SealedStore.Node
import SealedStore.Shutdown
/-!
# What the program does

An execution is a function of the arguments, the environment, the files, and the signal that ends a
running node.  It gives what the program shows and its exit code: 2 for arguments that are not
understood, 1 for other failures.
-/
namespace SealedStore.CommandLine

/-- A line of the log. -/
structure LogLine where
  level : Level
  message : String
deriving DecidableEq, Repr

/-- A line of plain information. -/
def note (message : String) : LogLine := ⟨.info, message⟩

/-- What a program shows, and its exit code. -/
structure Outcome where
  exit : Nat
  /-- Standard output, the log apart. -/
  stdout : String
  logs : List LogLine
  stderr : String
deriving DecidableEq, Repr

/-- What ends a running node. -/
inductive Signal where
  | terminate
  | interrupt
deriving DecidableEq, Repr

/-- The name of a signal. -/
def Signal.name : Signal → String
  | terminate => "SIGTERM"
  | interrupt => "SIGINT"

/-- The report of a failure, with its cause. -/
def report (failure : String) (cause : Option String) : String :=
  "Error: " ++ failure ++
    match cause with
    | none => ""
    | some c => "\n\nCaused by:\n    " ++ c

/-- The line that a component of some kind logs when it is started or stopped. -/
def componentLine? (c : Config) (call : Engine.LifecycleCall) : Option LogLine :=
  if !call.succeeded then none
  else match call.component, call.starting, c.engine.backend, c.engine.transport with
    | .backend, true, .redis, _ => some (note "redis store connected")
    | .backend, false, .redis, _ => some ⟨.debug, "redis store connection released"⟩
    | .backend, false, .sled, _ => some ⟨.debug, "sled store flushed"⟩
    | .topic, true, _, .redis => some (note "redis transport started")
    | .topic, false, _, .redis => some (note "redis transport stopped")
    | _, _, _, _ => none

/-- The lines of calls that were made. -/
def componentLines (c : Config) (calls : List Engine.LifecycleCall) : List LogLine :=
  calls.filterMap (componentLine? c)

section

variable {ρ : Type}

/-- Stops a node that runs, within a time limit, and logs that. -/
def drain (c : Config) (limit : Duration) (n : Node ρ) : Except StoreError Unit × List LogLine :=
  let calls := n.state.journal.length
  let r := (Shutdown.stopWithin n.engine limit ⟨0⟩).run n.state
  let stopped :=
    if limit.nanos = 0 then []
    else [⟨.debug, "consumption loop exited"⟩] ++ componentLines c (r.2.journal.drop calls) ++
      [note "confidential store engine stopped"]
  (r.1, stopped ++ [note "Shutdown complete"])

/-- Runs a node until a signal comes, and logs that. -/
def serve (c : Config) (limit : Duration) (signal : Signal) (n : Node ρ) :
    Except StoreError Unit × List LogLine :=
  let (started, n) := n.start
  let opening := note "engine assembled" :: componentLines c n.state.journal
  match started with
  | .error e => (.error e, opening)
  | .ok () =>
    let pending := if n.state.outgoing.isEmpty then [] else [note "re-publishing outbox entries"]
    let (ended, closing) := drain c limit n
    (ended, opening ++ [note "confidential store engine started"] ++ pending ++
      [note "confidential store node running", note ("Received " ++ signal.name),
        note "Initiating graceful shutdown"] ++ closing)

end

/-- What the program works with. -/
structure World where
  environment : Config.Environment
  /-- What is found at a path. -/
  files : String → Config.File
  /-- What ends a running node. -/
  signal : Signal
  /-- The identity of a node. -/
  uuid : Uuid

/-- The configuration that the options name, or a report of why there is none. -/
def loadConfig (w : World) (o : Options) : Except String Config :=
  match o.config with
  | some path =>
    (Config.ofFile (w.files path) w.environment).mapError fun e =>
      report ("loading " ++ path) (some e.message)
  | none =>
    (Config.ofEnvironment w.environment).mapError fun e =>
      report "loading configuration from environment" (some e.message)

/-- The settings of the log: those of the configuration, under the options. -/
def logSettings (o : Options) (c : Config) : Except String LogSettings :=
  match c.logSettings with
  | .error e => .error (report e.message none)
  | .ok s => .ok { s with level := o.level.getD s.level, jsonFormat := o.jsonLogs || s.jsonFormat }

section

variable {ρ : Type} (server : Redis.Server ρ) (initial : ρ) (w : World)

/-- Whether a node with these options starts, and so runs until a signal comes. -/
def comesUp (o : Options) : Bool :=
  match loadConfig w o with
  | .error _ => false
  | .ok c =>
    match Node.build server initial w.uuid c with
    | .error _ => false
    | .ok n => n.start.1.isOk

/-- Performs a command with a configuration. -/
def performWith (o : Options) (c : Config) (settings : LogSettings) : Command → Outcome
  | .checkConfig =>
    ⟨0, c.render ++ "\n", [note "configuration is valid"].filter (settings.logs ·.level), ""⟩
  | .run =>
    match Node.build server initial w.uuid c with
    | .error e => ⟨1, "", [], report e.message none⟩
    | .ok n =>
      let (ended, lines) := serve c o.drainTimeout w.signal n
      let logs := lines.filter (settings.logs ·.level)
      match ended with
      | .ok () => ⟨0, "", logs, ""⟩
      | .error e => ⟨1, "", logs, report e.message none⟩

/-- Performs a command, and tells whether the log is in JSON. -/
def perform (o : Options) (command : Command) : Outcome × Bool :=
  match loadConfig w o with
  | .error reason => (⟨1, "", [], reason⟩, false)
  | .ok c =>
    match logSettings o c with
    | .error reason => (⟨1, "", [], reason⟩, false)
    | .ok settings => (performWith server initial w o c settings command, settings.jsonFormat)

/-- What the program shows for its arguments, and whether its log is in JSON. -/
def execute (arguments : List String) : Outcome × Bool :=
  match parse arguments with
  | .perform o command => perform server initial w o command
  | .showHelp subject => (⟨0, String.join ((help subject).map (· ++ "\n")), [], ""⟩, false)
  | .showVersion => (⟨0, version ++ "\n", [], ""⟩, false)
  | .refuse => (⟨2, "", [], "error: the arguments are not understood"⟩, false)

end

end SealedStore.CommandLine
