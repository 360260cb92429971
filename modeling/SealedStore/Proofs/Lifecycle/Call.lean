import SealedStore.Proofs.Engine.Storage

/-! # Starts and stops, step by step

Calls that start and stop one engine may run at once.  Each is a sequence of steps, one for each
moment at which it waits: for the lock on the worker, for a component, for the worker's task to end.
A start holds the lock from the moment that it finds no worker until it has set its own; a stop
takes the worker under the lock and does the rest without it.  A call that is not overtaken does
what the operation does that it is a call of (`Lifecycle.alone_start`, `Lifecycle.alone_stop`).

What a step can do is said once (`Lifecycle.Acts`, `Lifecycle.step_acts`).  It says nothing of the
storage and the topic, but of the worker, of the calls to components that the journal notes, and of
what the call then holds.
-/
namespace SealedStore.Lifecycle

open Step Engine

variable {σ τ : Type}

/-! ## Calls in steps -/

inductive Request where
  | start
  | stop
deriving DecidableEq

/-- How far a call has come. -/
inductive Progress where
  /-- About to take the lock. -/
  | begun (request : Request)
  /-- A start that holds the lock and found no worker. -/
  | admitted
  | backendStarted
  | topicStarted
  | subscribed (subscription : Nat)
  /-- A start that could not subscribe, about to stop the topic again. -/
  | topicUndone (err : StoreError)
  /-- A start that failed behind the backend, about to stop it again. -/
  | backendUndone (err : StoreError)
  /-- A start that has set its worker and released the lock. -/
  | published
  /-- A stop that has taken the worker and released the lock. -/
  | taken (subscription : Nat)
  /-- A stop behind the end of the worker's task. -/
  | joined
  | topicStopped (result : Except StoreError Unit)
  | returned (result : Except StoreError Unit)

variable (e : Engine σ τ)

/-- The next step of a call; a call that has returned makes none. -/
def advance : Progress → Step (Engine.State σ τ) Progress
  | .begun .start => do
    if ← Step.gets State.running then Step.fail (.lifecycle "engine already started")
    else pure .admitted
  | .admitted => do
    e.startBackend
    pure .backendStarted
  | .backendStarted => do
    match ← e.startTopic.attempt with
    | .error err => pure (.backendUndone err)
    | .ok () => pure .topicStarted
  | .topicStarted => do
    match ← (onTopic e.topic.subscribe).attempt with
    | .error err => pure (.topicUndone err)
    | .ok subscription => pure (.subscribed subscription)
  | .topicUndone err => do
    e.stopTopic.ignore
    pure (.backendUndone err)
  | .backendUndone err => do
    e.stopBackend.ignore
    Step.fail err
  | .subscribed subscription => do
    setSubscription (some subscription)
    pure .published
  | .published => do
    if e.keepsOutbox then e.requeuePending else pure ()
    pure (.returned (.ok ()))
  | .begun .stop => do
    match ← Step.gets State.subscription with
    | none => pure (.returned (.ok ()))
    | some subscription => do
      setSubscription none
      pure (.taken subscription)
  | .taken subscription => do
    onTopic (Step.modify (e.topic.cancel subscription))
    pure .joined
  | .joined => do pure (.topicStopped (← e.stopTopic.attempt))
  | .topicStopped topic => do
    let backend ← e.stopBackend.attempt
    pure (.returned (do topic; backend))
  | .returned result => pure (.returned result)

/-- One step of a call.  An error ends it. -/
def step (p : Progress) (s : Engine.State σ τ) : Progress × Engine.State σ τ :=
  match advance e p s with
  | (.ok q, t) => (q, t)
  | (.error err, t) => (.returned (.error err), t)

variable {e} (s : Engine.State σ τ)

/-! ### What each step does -/

theorem step_start : step e (.begun .start) s =
    (if s.running then .returned (.error (.lifecycle "engine already started"))
      else .admitted, s) := by
  rw [step, advance, bind_apply, gets_apply]
  cases s.running <;> rfl

theorem step_admitted : step e .admitted s =
    (match e.startBackend.outcome s with
      | .ok _ => .backendStarted
      | .error err => .returned (.error err), e.startBackend.after s) := by
  rw [step, advance, bind_apply, outcome, after]
  rcases e.startBackend s with ⟨_ | _, _⟩ <;> rfl

theorem step_backendStarted : step e .backendStarted s =
    (match e.startTopic.outcome s with
      | .ok _ => .topicStarted
      | .error err => .backendUndone err, e.startTopic.after s) := by
  rw [step, advance, bind_apply, attempt_apply, outcome, after]
  rcases e.startTopic s with ⟨_ | _, _⟩ <;> rfl

theorem step_topicStarted : step e .topicStarted s =
    (match (onTopic e.topic.subscribe).outcome s with
      | .ok n => .subscribed n
      | .error err => .topicUndone err, (onTopic e.topic.subscribe).after s) := by
  rw [step, advance, bind_apply, attempt_apply, outcome, after]
  rcases onTopic e.topic.subscribe s with ⟨_ | _, _⟩ <;> rfl

theorem step_subscribed (n : Nat) :
    step e (.subscribed n) s = (.published, { s with subscription := some n }) := rfl

theorem step_published : step e .published s =
    (.returned (.ok ()), if e.keepsOutbox then e.requeuePending.after s else s) := by
  rw [step, advance]
  cases e.keepsOutbox with
  | false => rfl
  | true =>
    have hok : e.requeuePending s = (.ok (), e.requeuePending.after s) :=
      Prod.ext (requeuePending_outcome s) rfl
    simp only [reduceIte, bind_of_ok hok, pure_apply]

theorem step_stop : step e (.begun .stop) s =
    match s.subscription with
    | none => (.returned (.ok ()), s)
    | some n => (.taken n, { s with subscription := none }) := by
  rw [step, advance, bind_apply, gets_apply]
  cases s.subscription <;> rfl

theorem step_taken (n : Nat) :
    step e (.taken n) s = (.joined, { s with topic := e.topic.cancel n s.topic }) := rfl

theorem step_joined : step e .joined s =
    (.topicStopped (e.stopTopic.outcome s), e.stopTopic.after s) := rfl

theorem step_topicStopped (topic : Except StoreError Unit) :
    step e (.topicStopped topic) s =
      (.returned (do topic; e.stopBackend.outcome s), e.stopBackend.after s) := rfl

theorem step_returned (result : Except StoreError Unit) :
    step e (.returned result) s = (.returned result, s) := rfl

/-! ### Calls that are not overtaken -/

/-- Some steps of a call, one right after the other. -/
def alone (e : Engine σ τ) : Nat → Progress × Engine.State σ τ → Progress × Engine.State σ τ
  | 0, c => c
  | k + 1, c => alone e k (step e c.1 c.2)

theorem alone_start :
    alone e 6 (.begun .start, s) = (.returned (e.start.outcome s), e.start.after s) := by
  simp only [alone, step_start, outcome, after, start, bind_apply, gets_apply]
  cases s.running with
  | true => rfl
  | false =>
    simp only [Bool.false_eq_true, reduceIte, step_admitted, connect, bind_apply, outcome, after]
    rcases e.startBackend s with ⟨_ | _, t⟩
    · rfl
    simp only [step_backendStarted, attempt_apply, outcome, after]
    rcases e.startTopic t with ⟨err | _, u⟩
    · rfl
    simp only [step_topicStarted, bind_apply, attempt_apply, outcome, after]
    rcases onTopic e.topic.subscribe u with ⟨err | n, v⟩
    · rfl
    simp only [step_subscribed, step_published, pure_apply, setSubscription, modify_apply]
    cases e.keepsOutbox with
    | false => rfl
    | true => exact Prod.ext (congrArg Progress.returned (requeuePending_outcome _).symm) rfl

theorem alone_stop :
    alone e 4 (.begun .stop, s) = (.returned (e.stop.outcome s), e.stop.after s) := by
  simp only [alone, step_stop, outcome, after, stop, bind_apply, gets_apply]
  cases s.subscription with
  | none => rfl
  | some n =>
    simp only [step_taken, step_joined, step_topicStopped, detach, bind_apply,
      modify_apply, attempt_apply, outcome, after, ofExcept_apply]
    rcases e.stopTopic _ with ⟨_ | _, _⟩ <;> rfl

/-! ## How far a call has come -/

namespace Progress

/-- Whether a call holds the lock. -/
def holdsLock : Progress → Bool
  | admitted => true
  | backendStarted => true
  | topicStarted => true
  | subscribed _ => true
  | topicUndone _ => true
  | backendUndone _ => true
  | _ => false

/-- Whether a call is about to take the lock. -/
def waits : Progress → Bool
  | begun _ => true
  | _ => false

/-- Whether a call has returned. -/
def hasReturned : Progress → Bool
  | returned _ => true
  | _ => false

/-- How many steps a call makes at most until it has returned. -/
def remaining : Progress → Nat
  | begun .start => 6
  | admitted => 5
  | backendStarted => 4
  | topicStarted => 3
  | subscribed _ => 2
  | topicUndone _ => 2
  | backendUndone _ => 1
  | published => 1
  | begun .stop => 4
  | taken _ => 3
  | joined => 2
  | topicStopped _ => 1
  | returned _ => 0

/-- Whether it is for this call to stop a component, or to set a worker on it. -/
def answersFor : Progress → Component → Bool
  | backendStarted, .backend => true
  | topicStarted, _ => true
  | subscribed _, _ => true
  | topicUndone _, _ => true
  | backendUndone _, .backend => true
  | taken _, _ => true
  | joined, _ => true
  | topicStopped _, .backend => true
  | _, _ => false

/-- Whether a start counts on a component that it has started. -/
def countsOn : Progress → Component → Bool
  | backendStarted, .backend => true
  | topicStarted, _ => true
  | subscribed _, _ => true
  | _, _ => false

/-- Whether the next step of a stop stops a component. -/
def aboutToStop : Progress → Component → Bool
  | joined, .topic => true
  | topicStopped _, .backend => true
  | _, _ => false

/-- A start answers for the components that it counts on. -/
theorem answersFor_of_countsOn {p : Progress} {c : Component} (h : p.countsOn c = true) :
    p.answersFor c = true := by
  unfold countsOn at h
  split at h <;> first | rfl | cases h

/-- A stop does not wait for the lock to stop a component. -/
theorem waits_of_aboutToStop {p : Progress} {c : Component} (h : p.aboutToStop c = true) :
    p.waits = false := by
  unfold aboutToStop at h
  split at h <;> first | rfl | cases h

/-- A call that holds the lock can make a step. -/
theorem moves_of_holdsLock {p : Progress} (h : p.holdsLock = true) :
    p.hasReturned = false ∧ p.waits = false := by
  unfold holdsLock at h
  split at h <;> first | exact ⟨rfl, rfl⟩ | cases h

/-- A start counts on components under the lock only. -/
theorem holdsLock_of_countsOn {p : Progress} {c : Component} (h : p.countsOn c = true) :
    p.holdsLock = true := by
  unfold countsOn at h
  split at h <;> first | rfl | cases h

end Progress

/-- A call that has not returned comes closer to that with each step. -/
theorem remaining_step {p : Progress} (h : p.hasReturned = false) :
    (step e p s).1.remaining < p.remaining := by
  cases p with
  | begun request =>
    cases request with
    | start =>
      rw [step_start]
      cases s.running <;> simp [Progress.remaining]
    | stop =>
      rw [step_stop]
      cases s.subscription <;> simp [Progress.remaining]
  | admitted =>
    rw [step_admitted]
    cases e.startBackend.outcome s <;> simp [Progress.remaining]
  | backendStarted =>
    rw [step_backendStarted]
    cases e.startTopic.outcome s <;> simp [Progress.remaining]
  | topicStarted =>
    rw [step_topicStarted]
    cases (onTopic e.topic.subscribe).outcome s <;> simp [Progress.remaining]
  | published =>
    rw [step_published]
    exact Nat.lt_add_one 0
  | returned => cases h
  | _ => exact Nat.lt_add_one _

/-- A step that calls a component, with the call that is noted. -/
inductive Calls : Progress → LifecycleCall → Progress → Prop
  | startsBackend : Calls .admitted ⟨.backend, true, true⟩ .backendStarted
  | backendRefuses (err : StoreError) :
      Calls .admitted ⟨.backend, true, false⟩ (.returned (.error err))
  | startsTopic : Calls .backendStarted ⟨.topic, true, true⟩ .topicStarted
  | topicRefuses (err : StoreError) :
      Calls .backendStarted ⟨.topic, true, false⟩ (.backendUndone err)
  | undoesTopic (err : StoreError) (ok : Bool) :
      Calls (.topicUndone err) ⟨.topic, false, ok⟩ (.backendUndone err)
  | undoesBackend (err : StoreError) (ok : Bool) :
      Calls (.backendUndone err) ⟨.backend, false, ok⟩ (.returned (.error err))
  | stopsTopic (topic : Except StoreError Unit) (ok : Bool) :
      Calls .joined ⟨.topic, false, ok⟩ (.topicStopped topic)
  | stopsBackend (topic result : Except StoreError Unit) (ok : Bool) :
      Calls (.topicStopped topic) ⟨.backend, false, ok⟩ (.returned result)

namespace Calls

variable {p q : Progress} {call : LifecycleCall}

/-- A call answers for a component that it has just started, and no longer for one
that it has stopped. -/
theorem answersFor (h : Calls p call q) (c : Component) : q.answersFor c =
    if call.component = c then call.starting && call.succeeded else p.answersFor c := by
  cases h <;> cases c <;> rfl

theorem countsOn (h : Calls p call q) {c : Component} (hc : call.component ≠ c)
    (hq : q.countsOn c = true) :
    p.countsOn c = true := by
  cases h <;> cases c <;> first | exact hq | rfl | exact absurd rfl hc

theorem holdsLock (h : Calls p call q) (hq : q.holdsLock = true) : p.holdsLock = true := by
  cases h <;> first | rfl | cases hq

/-- A component is called under the lock, or stopped without it. -/
theorem locked_or_stops (h : Calls p call q) :
    p.holdsLock = true ∨ call.starting = false ∧ p.aboutToStop call.component = true := by
  cases h <;> first | exact .inl rfl | exact .inr ⟨rfl, rfl⟩

end Calls

/-! ## All that a step can do -/

/-- **A step of a call.** -/
inductive Acts (s : Engine.State σ τ) : Progress → Progress → Engine.State σ τ → Prop
  /-- The worker and the components are left alone. -/
  | quiet {p q : Progress} {t : Engine.State σ τ} :
      t.subscription = s.subscription → t.journal = s.journal →
      (∀ c, p.answersFor c = true → q.answersFor c = true) →
      (∀ c, q.countsOn c = true → p.countsOn c = true) → (q.holdsLock = true → p.holdsLock = true) →
        Acts s p q t
  | locks : s.running = false → Acts s (.begun .start) .admitted s
  | calls {p q : Progress} {t : Engine.State σ τ} {call : LifecycleCall} : Calls p call q →
      t.subscription = s.subscription → t.journal = s.journal ++ [call] → Acts s p q t
  | publishes (n : Nat) : Acts s (.subscribed n) .published { s with subscription := some n }
  | takes (n : Nat) : Acts s (.begun .stop) (.taken n) { s with subscription := none }

/-- A call to a component is noted and leaves the worker alone. -/
theorem noted {m : Step (Engine.State σ τ) Unit}
    (hm : ∀ s, (m.after s).subscription = s.subscription ∧ (m.after s).journal = s.journal)
    (c : Component) (starting : Bool) {r : Except StoreError Unit}
    (hr : (lifecycle c starting m).outcome s = r) :
    ((lifecycle c starting m).after s).subscription = s.subscription ∧
      ((lifecycle c starting m).after s).journal = s.journal ++ [⟨c, starting, r.isOk⟩] := by
  have hout : r = m.outcome s := hr.symm
  refine ⟨(hm s).1, ?_⟩
  rw [hout, ← (hm s).2]
  rfl

/-- A stop that is about to stop a component does so. -/
theorem step_stops {p : Progress} {c : Component} (h : p.aboutToStop c = true) :
    ∃ ok, (step e p s).2.journal = s.journal ++ [⟨c, false, ok⟩] := by
  unfold Progress.aboutToStop at h
  split at h
  · exact ⟨_, (noted s (fun _ => ⟨rfl, rfl⟩) .topic false (rfl : e.stopTopic.outcome s = _)).2⟩
  · exact ⟨_, (noted s (fun _ => ⟨rfl, rfl⟩) .backend false (rfl : e.stopBackend.outcome s = _)).2⟩
  · cases h

theorem requeuePending_quiet : (e.requeuePending.after s).subscription = s.subscription ∧
    (e.requeuePending.after s).journal = s.journal := by
  rw [after, requeuePending, bind_apply, attempt_apply, onStorage, within_apply]
  rcases Outbox.pending e.backend s.storage with ⟨_ | _, _⟩ <;> exact ⟨rfl, rfl⟩

theorem step_acts (p : Progress) : Acts s p (step e p s).1 (step e p s).2 := by
  cases p with
  | begun request =>
    cases request with
    | start =>
      rw [step_start]
      cases hrun : s.running with
      | true => exact .quiet rfl rfl nofun nofun nofun
      | false => exact .locks hrun
    | stop =>
      rw [step_stop]
      cases s.subscription with
      | none => exact .quiet rfl rfl nofun nofun nofun
      | some n => exact .takes n
  | admitted =>
    rw [step_admitted]
    cases hout : e.startBackend.outcome s with
    | ok _ =>
      obtain ⟨hsub, hnoted⟩ := noted s (fun _ => ⟨rfl, rfl⟩) .backend true hout
      exact .calls .startsBackend hsub hnoted
    | error err =>
      obtain ⟨hsub, hnoted⟩ := noted s (fun _ => ⟨rfl, rfl⟩) .backend true hout
      exact .calls (.backendRefuses err) hsub hnoted
  | backendStarted =>
    rw [step_backendStarted]
    cases hout : e.startTopic.outcome s with
    | ok _ =>
      obtain ⟨hsub, hnoted⟩ := noted s (fun _ => ⟨rfl, rfl⟩) .topic true hout
      exact .calls .startsTopic hsub hnoted
    | error err =>
      obtain ⟨hsub, hnoted⟩ := noted s (fun _ => ⟨rfl, rfl⟩) .topic true hout
      exact .calls (.topicRefuses err) hsub hnoted
  | topicStarted =>
    rw [step_topicStarted]
    cases (onTopic e.topic.subscribe).outcome s with
    | ok n => exact .quiet rfl rfl (fun _ h => h) (fun _ h => h) fun h => h
    | error err => exact .quiet rfl rfl (fun _ h => h) nofun fun h => h
  | topicUndone err =>
    obtain ⟨hsub, hnoted⟩ :=
      noted s (fun _ => ⟨rfl, rfl⟩) .topic false (rfl : e.stopTopic.outcome s = _)
    exact .calls (.undoesTopic err _) hsub hnoted
  | backendUndone err =>
    obtain ⟨hsub, hnoted⟩ :=
      noted s (fun _ => ⟨rfl, rfl⟩) .backend false (rfl : e.stopBackend.outcome s = _)
    exact .calls (.undoesBackend err _) hsub hnoted
  | subscribed n => exact .publishes n
  | published =>
    rw [step_published]
    cases e.keepsOutbox with
    | false => exact .quiet rfl rfl nofun nofun nofun
    | true =>
      obtain ⟨hsub, hjournal⟩ := requeuePending_quiet (e := e) s
      exact .quiet hsub hjournal nofun nofun nofun
  | taken n => exact .quiet rfl rfl (fun _ h => h) nofun nofun
  | joined =>
    obtain ⟨hsub, hnoted⟩ :=
      noted s (fun _ => ⟨rfl, rfl⟩) .topic false (rfl : e.stopTopic.outcome s = _)
    exact .calls (.stopsTopic _ _) hsub hnoted
  | topicStopped topic =>
    obtain ⟨hsub, hnoted⟩ :=
      noted s (fun _ => ⟨rfl, rfl⟩) .backend false (rfl : e.stopBackend.outcome s = _)
    exact .calls (.stopsBackend topic _ _) hsub hnoted
  | returned result => exact .quiet rfl rfl (fun _ h => h) (fun _ h => h) fun h => h

end SealedStore.Lifecycle
