import SealedStore.Engine.Basic
import SealedStore.Duration
/-!
# Shutting a node down

A coordinator moves a node from running to shutting down, wakes those who wait for that, and stops
the engine within a time limit.  Requesting and waiting are made of steps between which others may
run: a request changes the phase and then sends the one notification, a waiter subscribes, then
looks at the phase, and only then waits for the notification.
-/
namespace SealedStore

namespace Shutdown

/-- How far a node is. -/
inductive Phase where
  | running
  | shuttingDown
  | shutdown
deriving DecidableEq, Repr

/-- The name of a phase. -/
def Phase.name : Phase → String
  | running => "Running"
  | shuttingDown => "ShuttingDown"
  | shutdown => "Shutdown"

/-- The phase of a node and the notifications sent to those who wait. -/
structure Coordinator where
  phase : Phase
  notices : Hub Unit

namespace Coordinator

/-- A node that runs. -/
def running : Coordinator := ⟨.running, .empty⟩

/-! ## Requesting -/

/-- The first step of a request: leaves the running phase.  Only a request that does so notifies. -/
def request (c : Coordinator) : Bool × Coordinator :=
  if c.phase = .running then (true, { c with phase := .shuttingDown }) else (false, c)

/-- The second step of a request: notifies those who are subscribed. -/
def notify (c : Coordinator) : Coordinator := { c with notices := c.notices.publish () }

/-- A whole request.  All but the first are ignored. -/
def shutdown (c : Coordinator) : Coordinator :=
  match c.request with
  | (true, c) => c.notify
  | (false, c) => c

/-! ## Waiting -/

/-- Somebody who waits for the shutdown. -/
inductive Waiter where
  /-- Subscribed, and about to look at the phase. -/
  | subscribed (subscription : Nat)
  /-- Waiting for the notification. -/
  | receiving (subscription : Nat)
  | returned
deriving DecidableEq, Repr

/-- The first step of waiting. -/
def subscribe (c : Coordinator) : Waiter × Coordinator :=
  let s := c.notices.subscribe
  (.subscribed s.1, { c with notices := s.2 })

/-- The next step of somebody who waits: a look at the phase, or at the notifications. -/
def advance (w : Waiter) (c : Coordinator) : Waiter × Coordinator :=
  match w with
  | .returned => (.returned, c)
  | .subscribed s =>
    if c.phase = .running then (.receiving s, c)
    else (.returned, { c with notices := c.notices.cancel s })
  | .receiving s =>
    match c.notices.receive s with
    | (some (), notices) => (.returned, { c with notices := notices.cancel s })
    | (none, _) => (.receiving s, c)

/-- One step of each of those who wait. -/
def advanceAll (c : Coordinator) : List Waiter → List Waiter × Coordinator
  | [] => ([], c)
  | w :: r =>
    let next := c.advance w
    let rest := advanceAll next.2 r
    (next.1 :: rest.1, rest.2)

/-- Waits as far as possible without a change of the coordinator by others. -/
def wait (c : Coordinator) : Waiter × Coordinator :=
  let (w, c) := c.subscribe
  let (w, c) := c.advance w
  c.advance w

/-- The last phase. -/
def finish (c : Coordinator) : Coordinator := { c with phase := .shutdown }

end Coordinator

/-! ## Stopping the engine -/

/-- The milliseconds after which a timer fires. -/
def ticks (d : Duration) : Nat := (d.nanos + 999999) / 1000000

/-- The error of an engine that does not stop in time. -/
def overdue (limit : Duration) : StoreError :=
  .lifecycle ("engine did not stop within " ++ limit.exact)

variable {σ τ : Type} (e : Engine σ τ)

/-- Stops an engine whose backend takes some time to stop, within a limit.  A stop that is overdue
is abandoned where it waits: without any time already for its consumption to end, else for the
backend, whose own answer is then not heard. -/
def stopWithin (limit takes : Duration) : Step (Engine.State σ τ) Unit := do
  match ← Step.gets Engine.State.subscription with
  | none => pure ()
  | some subscription =>
    if limit.nanos = 0 then do
      e.detach subscription
      Step.fail (overdue limit)
    else do
      let stopped ← e.stop.attempt
      if ticks takes ≤ ticks limit then Step.ofExcept stopped else Step.fail (overdue limit)

end Shutdown
end SealedStore
