import SealedStore.Proofs.Lifecycle.Call
import SealedStore.Proofs.Sample.Node

/-! # Starts and stops one after the other

A start calls the backend, the topic and the topic's subscription in turn, a stop calls the
topic and the backend, and each of these calls may fail at any time.  The journal of an engine
notes the calls; `Lifecycle.balance` counts for a component the starts that succeeded less the
stops that were tried.

A start that fails takes back what it has started (`Lifecycle.Undone`), a stop stops both components
whatever comes of it.  So after any history a component is in balance one above its stops just if
the engine runs (`Lifecycle.balanced_after_calls`).
-/
namespace SealedStore.Lifecycle

open Step Engine

variable {σ τ : Type} {e : Engine σ τ} {s t : Engine.State σ τ}

/-! ## The balance of a component -/

/-- Starts of a component that succeeded, less the calls to stop it. -/
def balance (c : Component) (journal : List LifecycleCall) : Int :=
  journal.countP (fun call => call.component = c ∧ call.starting ∧ call.succeeded) -
    journal.countP fun call => call.component = c ∧ ¬ call.starting

theorem balance_append (c : Component) (journal calls : List LifecycleCall) :
    balance c (journal ++ calls) = balance c journal + balance c calls := by
  simp only [balance, List.countP_append]
  omega

/-- The calls of a start that failed: it has taken back what it had started. -/
inductive Undone : List LifecycleCall → Prop
  | backendRefused : Undone [⟨.backend, true, false⟩]
  | topicRefused (backend : Bool) :
      Undone [⟨.backend, true, true⟩, ⟨.topic, true, false⟩, ⟨.backend, false, backend⟩]
  | subscriptionRefused (topic backend : Bool) :
      Undone [⟨.backend, true, true⟩, ⟨.topic, true, true⟩, ⟨.topic, false, topic⟩,
        ⟨.backend, false, backend⟩]

theorem Undone.balance {calls : List LifecycleCall} (h : Undone calls) (c : Component) :
    balance c calls = 0 := by
  cases h with
  | backendRefused => cases c <;> rfl
  | topicRefused backend => cases c <;> cases backend <;> rfl
  | subscriptionRefused topic backend => cases c <;> cases topic <;> cases backend <;> rfl

theorem balance_started (c : Component) :
    balance c [⟨.backend, true, true⟩, ⟨.topic, true, true⟩] = 1 := by
  cases c <;> rfl

theorem balance_stopped (c : Component) (topic backend : Bool) :
    balance c [⟨.topic, false, topic⟩, ⟨.backend, false, backend⟩] = -1 := by
  cases c <;> cases topic <;> cases backend <;> rfl

/-! ## What a start comes to -/

/-- From one state to another these calls to components were made, and the worker was left alone. -/
structure Made (s : Engine.State σ τ) (calls : List LifecycleCall) (t : Engine.State σ τ) :
    Prop where
  subscription : t.subscription = s.subscription
  journal : t.journal = s.journal ++ calls

namespace Made

theorem trans {u : Engine.State σ τ} {calls more : List LifecycleCall} (h : Made s calls t)
    (h' : Made t more u) :
    Made s (calls ++ more) u where
  subscription := h'.subscription.trans h.subscription
  journal := by rw [h'.journal, h.journal, List.append_assoc]

/-- A call to a component. -/
theorem call {m : Step (Engine.State σ τ) Unit}
    (hm : ∀ s, (m.after s).subscription = s.subscription ∧ (m.after s).journal = s.journal)
    {c : Component} {starting : Bool} {r : Except StoreError Unit}
    (h : lifecycle c starting m s = (r, t)) :
    Made s [⟨c, starting, r.isOk⟩] t := by
  obtain ⟨hsub, hjournal⟩ := noted s hm c starting (congrArg Prod.fst h)
  rw [after, h] at hsub hjournal
  exact ⟨hsub, hjournal⟩

/-- A subscription calls no component to start or stop it. -/
theorem subscribe {r : Except StoreError Nat} (h : onTopic e.topic.subscribe s = (r, t)) :
    Made s [] t := by
  rw [onTopic, within_apply] at h
  obtain ⟨-, rfl⟩ := Prod.mk.inj h
  exact ⟨rfl, (List.append_nil _).symm⟩

end Made

/-- Either the components are started and the topic is subscribed to, or what was
started is stopped again. -/
theorem connect_cases (e : Engine σ τ) (s : Engine.State σ τ) :
    (∃ n t, e.connect s = (.ok n, t) ∧ Made s [⟨.backend, true, true⟩, ⟨.topic, true, true⟩] t) ∨
      ∃ err calls t, e.connect s = (.error err, t) ∧ Made s calls t ∧ Undone calls := by
  rw [connect]
  rcases hbackend : e.startBackend s with ⟨err | ⟨⟩, s₁⟩
  · exact .inr ⟨err, _, s₁, bind_of_error hbackend, .call (fun _ => ⟨rfl, rfl⟩) hbackend,
      .backendRefused⟩
  have hmade₁ := Made.call (fun _ => ⟨rfl, rfl⟩) hbackend
  rw [bind_of_ok hbackend, bind_apply, attempt_apply]
  rcases htopic : e.startTopic s₁ with ⟨err | ⟨⟩, s₂⟩
  · rcases hundone : e.stopBackend s₂ with ⟨r, t⟩
    refine .inr ⟨err, _, t, ?_, hmade₁.trans ((Made.call (fun _ => ⟨rfl, rfl⟩) htopic).trans
      (.call (fun _ => ⟨rfl, rfl⟩) hundone)), .topicRefused _⟩
    simp [bind_apply, hundone]
  have hmade₂ := hmade₁.trans (.call (fun _ => ⟨rfl, rfl⟩) htopic)
  dsimp only
  rw [bind_apply, attempt_apply]
  rcases hsubscribe : (onTopic e.topic.subscribe : Step (Engine.State σ τ) Nat)
    s₂ with ⟨err | n, s₃⟩
  · rcases htopicUndone : e.stopTopic s₃ with ⟨r, s₄⟩
    rcases hundone : e.stopBackend s₄ with ⟨q, t⟩
    have hmade₃ := hmade₂.trans (.subscribe hsubscribe)
    refine .inr ⟨err, _, t, ?_, hmade₃.trans ((Made.call (fun _ => ⟨rfl, rfl⟩) htopicUndone).trans
      (.call (fun _ => ⟨rfl, rfl⟩) hundone)), .subscriptionRefused _ _⟩
    simp [bind_apply, htopicUndone, hundone]
  · exact .inl ⟨n, s₃, rfl, hmade₂.trans (.subscribe hsubscribe)⟩

/-- **All that a start can come to.** -/
inductive Starts (s : Engine.State σ τ) : Except StoreError Unit → Engine.State σ τ → Prop
  | refused : s.running = true → Starts s (.error (.lifecycle "engine already started")) s
  | undone {err : StoreError} {calls : List LifecycleCall} {t : Engine.State σ τ} :
      s.running = false → t.running = false → t.journal = s.journal ++ calls → Undone calls →
        Starts s (.error err) t
  | up {t : Engine.State σ τ} : s.running = false → t.running = true →
      t.journal = s.journal ++ [⟨.backend, true, true⟩, ⟨.topic, true, true⟩] → Starts s (.ok ()) t

theorem start_of_running (e : Engine σ τ) (h : s.running = true) :
    e.start s = (.error (.lifecycle "engine already started"), s) := by
  rw [start, bind_apply, gets_apply, h]
  rfl

theorem start_starts (e : Engine σ τ) (s : Engine.State σ τ) :
    Starts s (e.start.outcome s) (e.start.after s) := by
  cases hrun : s.running with
  | true =>
    rw [outcome, after, start_of_running e hrun]
    exact .refused hrun
  | false =>
    have hstart : e.start s = (do
        let subscription ← e.connect
        setSubscription (some subscription)
        if e.keepsOutbox then e.requeuePending else pure () : Step _ Unit) s := by
      rw [start, bind_apply, gets_apply, hrun]
      rfl
    rw [outcome, after, hstart]
    rcases connect_cases e s with
      ⟨n, t, hconnect, hmade⟩ | ⟨err, calls, t, hconnect, hmade, hundone⟩
    · rw [bind_of_ok hconnect, bind_apply, setSubscription, modify_apply]
      dsimp only
      split
      · -- what waits in the outbox is taken up behind all this
        obtain ⟨hsub, hjournal⟩ := requeuePending_quiet (e := e) { t with subscription := some n }
        rw [show (e.requeuePending { t with subscription := some n }).1 = .ok () from
          requeuePending_outcome _]
        refine .up hrun ?_ (hjournal.trans hmade.journal)
        exact congrArg Option.isSome hsub
      · exact .up hrun rfl hmade.journal
    · rw [bind_of_error hconnect]
      exact .undone hrun ((congrArg Option.isSome hmade.subscription).trans hrun)
        hmade.journal hundone

/-! ## What a stop comes to -/

theorem stop_of_stopped (e : Engine σ τ) (h : s.running = false) : e.stop s = (.ok (), s) := by
  rw [stop, bind_apply, gets_apply, Option.isSome_eq_false_iff.mp h |> Option.isNone_iff_eq_none.mp]
  rfl

/-- A running engine once both components were called to stop. -/
def stopped (e : Engine σ τ) (n : Nat) (s : Engine.State σ τ) : Engine.State σ τ :=
  let topic := e.topic.cancel n s.topic
  { s with
    subscription := none
    topic := e.topic.stop.after topic
    storage := e.backend.stop.after s.storage
    journal := s.journal ++ [⟨.topic, false, (e.topic.stop.outcome topic).isOk⟩,
      ⟨.backend, false, (e.backend.stop.outcome s.storage).isOk⟩] }

/-- **A stop calls the topic and the backend**, whatever comes of either, and
tells the first error. -/
theorem stop_of_running (e : Engine σ τ) {n : Nat} (h : s.subscription = some n) :
    e.stop s =
      (do e.topic.stop.outcome (e.topic.cancel n s.topic); e.backend.stop.outcome s.storage,
        stopped e n s) := by
  rw [stop, bind_apply, gets_apply, h]
  -- both components are called before either result is looked at
  have hcalled : e.stopBackend.after (e.stopTopic.after ((e.detach n).after s)) =
      stopped e n s := by
    simp [stopped, after, outcome, bind_apply, detach, stopTopic, stopBackend, lifecycle,
      onTopic, onStorage]
  show (do Step.ofExcept (e.topic.stop.outcome (e.topic.cancel n s.topic))
           Step.ofExcept (e.backend.stop.outcome s.storage) : Step (Engine.State σ τ) Unit)
    (e.stopBackend.after (e.stopTopic.after ((e.detach n).after s))) = _
  rw [hcalled, bind_apply, ofExcept_apply]
  cases e.topic.stop.outcome (e.topic.cancel n s.topic) <;> rfl

theorem running_after_stop (e : Engine σ τ) (s : Engine.State σ τ) :
    (e.stop.after s).running = false := by
  cases hsub : s.subscription with
  | none =>
    have hrun : s.running = false := by rw [Engine.State.running, hsub]; rfl
    rw [after, stop_of_stopped e hrun]
    exact hrun
  | some n =>
    rw [after, stop_of_running e hsub]
    rfl

/-! ## Histories -/

/-- What happens to an engine whose starts and stops do not overlap. -/
inductive Event (σ τ : Type) where
  | call (request : Request)
  /-- The engine is used, which may do anything but touch the worker and the journal. -/
  | use (storage : σ) (topic : τ) (outgoing : List Message) (metrics : Metrics)

/-- The state after an event. -/
def happen (e : Engine σ τ) (s : Engine.State σ τ) : Event σ τ → Engine.State σ τ
  | .call .start => e.start.after s
  | .call .stop => e.stop.after s
  | .use storage topic outgoing metrics => { s with storage, topic, outgoing, metrics }

/-- The state after events, one after the other. -/
def afterAll (e : Engine σ τ) (s : Engine.State σ τ) (events : List (Event σ τ)) :
    Engine.State σ τ :=
  events.foldl (happen e) s

/-- Each component was started once more than stopped if the engine runs, and as
often if it does not. -/
def Balanced (s : Engine.State σ τ) : Prop := ∀ c, balance c s.journal = if s.running then 1 else 0

/-- **Every event keeps the balance.** -/
theorem Balanced.happen (h : Balanced s) (event : Event σ τ) : Balanced (happen e s event) := by
  intro c
  cases event with
  | use => exact h c
  | call request =>
    cases request with
    | start =>
      show balance c (e.start.after s).journal = if (e.start.after s).running then 1 else 0
      have hstarts := start_starts e s
      generalize e.start.outcome s = result, e.start.after s = t at hstarts ⊢
      cases hstarts with
      | refused => exact h c
      | undone hrun ht hjournal hundone =>
        rw [hjournal, balance_append, h c, hundone.balance c, hrun, ht]
        rfl
      | up hrun ht hjournal =>
        rw [hjournal, balance_append, h c, balance_started, hrun, ht]
        rfl
    | stop =>
      show balance c (e.stop.after s).journal = if (e.stop.after s).running then 1 else 0
      rw [running_after_stop]
      cases hsub : s.subscription with
      | none =>
        have hrun : s.running = false := by rw [Engine.State.running, hsub]; rfl
        rw [after, stop_of_stopped e hrun, h c, hrun]
      | some n =>
        have hrun : s.running = true := by rw [Engine.State.running, hsub]; rfl
        rw [after, stop_of_running e hsub]
        show balance c (s.journal ++ [⟨.topic, false, _⟩, ⟨.backend, false, _⟩]) = _
        rw [balance_append, h c, balance_stopped, hrun]
        rfl

/-- **Every history keeps the balance.** -/
theorem Balanced.afterAll (h : Balanced s) (events : List (Event σ τ)) :
    Balanced (afterAll e s events) := by
  induction events generalizing s with
  | nil => exact h
  | cons event events ih => exact ih (h.happen event)

/-- A start, a start of the engine that runs, and a stop: after the first the components are one
start above their stops, the second changes nothing, and the third brings them back. -/
example :
    let e := Sample.engine Octets.zero false
    let before : State Memory (Hub Message) := .initial .empty .empty
    let running := afterAll e before [.call .start]
    e.start.outcome before = .ok () ∧ running.running = true ∧
      (∀ c, balance c running.journal = 1) ∧
      e.start running = (.error (.lifecycle "engine already started"), running) ∧
      (afterAll e running [.call .stop]).running = false ∧
      (∀ c, balance c (afterAll e running [.call .stop]).journal = 0) := by
  refine ⟨rfl, rfl, fun c => ?_, rfl, rfl, fun c => ?_⟩ <;> cases c <;> rfl

/-- A topic that cannot be subscribed to is stopped again, and so is the backend. -/
example :
    let e := Sample.engine Octets.zero false
    let refusing :=
      { e with topic := { e.topic with subscribe := Step.fail (.transport "refused") } }
    (afterAll refusing (State.initial .empty .empty) [.call .start, .call .stop]).journal =
      [⟨.backend, true, true⟩, ⟨.topic, true, true⟩, ⟨.topic, false, true⟩,
        ⟨.backend, false, true⟩] := rfl

end SealedStore.Lifecycle
