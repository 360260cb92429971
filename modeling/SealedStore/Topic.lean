import SealedStore.Step
import SealedStore.Hub
/-!
# The replication topic

The topic carries messages between nodes: every subscriber receives what is published after it
subscribed, at most once and without acknowledgement.  Like a backend, a topic is a structure of
steps on a state of its own; `Topic.ofHub` is the one within a process.
-/
namespace SealedStore

/-- The operations of a topic. -/
structure Topic (τ : Type) where
  start : Step τ Unit
  stop : Step τ Unit
  /-- Opens a subscription and gives its number. -/
  subscribe : Step τ Nat
  publish : Message → Step τ Unit
  /-- The next message of a subscription, if one is there. -/
  receive : Nat → τ → Option Message × τ
  /-- Closes a subscription. -/
  cancel : Nat → τ → τ

namespace Topic

variable {τ ρ ω : Type}

/-- A call to a topic that may fail. -/
inductive Call where
  | start
  | stop
  | subscribe
  | publish (message : Message)
deriving DecidableEq

/-- The name of the operation that is called. -/
def Call.method : Call → String
  | start => "start"
  | stop => "stop"
  | subscribe => "subscribe"
  | publish _ => "publish"

/-- The topic on a part of a larger state. -/
def within (part : ρ → τ) (replace : τ → ρ → ρ) (t : Topic τ) : Topic ρ where
  start := t.start.within part replace
  stop := t.stop.within part replace
  subscribe := t.subscribe.within part replace
  publish m := (t.publish m).within part replace
  receive s := fun r => ((t.receive s (part r)).1, replace (t.receive s (part r)).2 r)
  cancel s := fun r => replace (t.cancel s (part r)) r

/-- The topic with a check before every call.  A call that the check refuses does not reach it. -/
def guarded (gate : Call → Step ω Unit) (t : Topic τ) : Topic (τ × ω) :=
  let check (c : Call) : Step (τ × ω) Unit := (gate c).within Prod.snd fun w s => (s.1, w)
  let inner := t.within (ρ := τ × ω) Prod.fst fun s w => (s, w.2)
  { start := do check .start; inner.start
    stop := do check .stop; inner.stop
    subscribe := do check .subscribe; inner.subscribe
    publish := fun m => do check (.publish m); inner.publish m
    receive := inner.receive
    cancel := inner.cancel }

/-- The topic of a hub. -/
def ofHub : Topic (Hub Message) where
  start := pure ()
  stop := pure ()
  subscribe := fun h => (.ok h.subscribe.1, h.subscribe.2)
  publish m := Step.modify (·.publish m)
  receive s := fun h => h.receive s
  cancel s := fun h => h.cancel s

/-- The channel that carries messages between processes. -/
def channel : String := "store:upsert"

end Topic
end SealedStore
