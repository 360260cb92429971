import SealedStore.CommandLine.Execution
import SealedStore.Json.Printer
/-!
# The program

Reads the arguments, the variables of the environment and the named file, and shows what
`CommandLine.execute` gives.  A line on standard input stands for the signal that ends a running
node: `INT` for an interrupt, anything else for a request to terminate.
-/
open SealedStore

namespace SealedStore.CommandLine

/-- The variables of the environment that are set. -/
def readEnvironment : IO Config.Environment := do
  let values ← Config.Variable.all.mapM fun v => do pure (v.name, ← IO.getEnv v.name)
  pure fun name => (values.find? fun e => e.1 = name).bind (·.2)

/-- The content of a file, if it can be read. -/
def readFile (path : String) : IO Config.File := do
  try pure (some (← IO.FS.readBinFile path).toList)
  catch _ => pure none

/-- Waits for the signal that ends a node. -/
def awaitSignal : IO Signal := do
  let line ← (← IO.getStdin).getLine
  pure (if line.trimAscii.toString = "INT" then .interrupt else .terminate)

/-- A line of the log as text. -/
def LogLine.text (json : Bool) (l : LogLine) : String :=
  let severity := l.level.name.toUpper
  if json then
    (Bytes.toText? (Json.record [("level", .text severity),
      ("fields", .record [("message", .text l.message)])]).render).getD ""
  else severity ++ " " ++ l.message

end SealedStore.CommandLine

open SealedStore.CommandLine in
/-- Performs what the arguments ask for. -/
def main (arguments : List String) : IO UInt32 := do
  let request := CommandLine.parse arguments
  let environment ← readEnvironment
  let file ← match request with
    | .perform ⟨some path, _, _, _⟩ _ => readFile path
    | _ => pure none
  let uuid ← IO.getRandomBytes 16
  let world : World := ⟨environment, fun _ => file, .terminate, Octets.ofBytes 16 uuid.toList⟩
  let signal ← match request with
    | .perform o .run =>
      if comesUp Redis.unreachable () world o then awaitSignal else pure .terminate
    | _ => pure .terminate
  let (outcome, json) := execute Redis.unreachable () { world with signal } arguments
  IO.print outcome.stdout
  outcome.logs.forM fun l => IO.println (l.text json)
  if outcome.stderr ≠ "" then IO.eprintln outcome.stderr
  pure outcome.exit.toUInt32
