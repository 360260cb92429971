import SealedStore.Proofs.Interleaving
import SealedStore.Proofs.Lifecycle.Call
import SealedStore.Proofs.Sample.Node
import SealedStore.Shutdown

/-! # Starts and stops that race

A run is any order of the steps of any calls that start and stop a fresh engine, while the engine
may be used from elsewhere at any moment.  A call that is about to take the lock waits while another
holds it; it never waits for good (`Lifecycle.exists_returned`).

A stop gives up the worker before it stops the components, and it does that without the lock.  A
start that slips in between has its components stopped under it; such a stop `Undercuts` the
engine.  Once all calls have returned, no component is up without a worker, and a component is up
under a worker just if it was not undercut since it was last started
(`Lifecycle.agreement_after_calls`).  Two invariants carry this: `Orderly`, that each component
that is up belongs to the worker or to a call that answers for it, and `Sound`, that each component
that the worker or a start counts on is up or was undercut.

A stop that its caller gives up does not return; it leaves components up without a worker
(`Lifecycle.overdue_stop`).
-/
namespace SealedStore

/-! ## Components -/

namespace Engine.State

variable {σ τ : Type} {s t : Engine.State σ τ}

/-- The last call that was made to start or stop a component. -/
def lastCall (s : Engine.State σ τ) (c : Component) : Option LifecycleCall :=
  (s.journal.filter (·.component = c)).getLast?

/-- A component that was started and not stopped since. -/
def Up (s : Engine.State σ τ) (c : Component) : Prop := s.lastCall c = some ⟨c, true, true⟩

instance (s : Engine.State σ τ) (c : Component) : Decidable (s.Up c) :=
  inferInstanceAs (Decidable (_ = _))

theorem up_congr (h : t.journal = s.journal) (c : Component) : t.Up c ↔ s.Up c := by
  rw [Up, Up, lastCall, lastCall, h]

/-- A call decides whether its component is up. -/
theorem up_noted {call : LifecycleCall} (h : t.journal = s.journal ++ [call]) :
    t.Up call.component ↔ call.starting = true ∧ call.succeeded = true := by
  rw [Up, lastCall, h, List.filter_append, List.filter_singleton]
  cases call
  simp

theorem up_noted_of_ne {call : LifecycleCall} (h : t.journal = s.journal ++ [call]) {c : Component}
    (hc : call.component ≠ c) : t.Up c ↔ s.Up c := by
  rw [Up, Up, lastCall, lastCall, h, List.filter_append, List.filter_singleton]
  simp [hc]

/-- A component that is not up comes up by being started only. -/
theorem not_up_append {later : List LifecycleCall} (h : t.journal = s.journal ++ later)
    {c : Component} (hs : ¬ s.Up c)
    (hlater : ∀ call ∈ later, call.component = c → call.starting = false) : ¬ t.Up c := by
  rw [Up, lastCall, h, List.filter_append, List.getLast?_append]
  cases hlast : (later.filter (·.component = c)).getLast? with
  | none => exact hs
  | some call =>
    obtain ⟨hmem, hc⟩ := List.mem_filter.mp (List.mem_of_getLast? hlast)
    intro hup
    obtain rfl := Option.some.inj hup
    exact nomatch hlater _ hmem (of_decide_eq_true hc)

theorem running_congr (h : t.subscription = s.subscription) : t.running = s.running := by
  rw [running, running, h]

end Engine.State

namespace Lifecycle

open Step Engine

variable {σ τ : Type}

/-! ## Runs -/

/-- An engine and the calls that start and stop it. -/
structure State (σ τ : Type) where
  engine : Engine.State σ τ
  calls : List Progress

/-- A fresh engine with calls that are about to be made. -/
def begin (storage : σ) (topic : τ) (requests : List Request) : State σ τ :=
  ⟨.initial storage topic, requests.map .begun⟩

namespace State

variable (s : State σ τ)

/-- Whether the lock is held. -/
def locked : Bool := s.calls.any Progress.holdsLock

/-- Some call is as far as `f` says. -/
def Has (f : Progress → Bool) : Prop :=
  ∃ (n : Nat) (p : Progress), s.calls[n]? = some p ∧ f p = true

/-- A component that the worker or a start counts on. -/
def Relied (c : Component) : Prop := s.engine.running = true ∨ s.Has (·.countsOn c)

/-- All calls have returned. -/
def AllReturned : Prop := ∀ p ∈ s.calls, p.hasReturned = true

instance : Decidable s.AllReturned := inferInstanceAs (Decidable (∀ p ∈ s.calls, _))

theorem locked_iff : s.locked = true ↔ s.Has Progress.holdsLock := by
  simp only [locked, List.any_eq_true, List.mem_iff_getElem?, Has]
  exact ⟨fun ⟨p, ⟨n, hn⟩, hp⟩ => ⟨n, p, hn, hp⟩, fun ⟨n, p, hn, hp⟩ => ⟨p, ⟨n, hn⟩, hp⟩⟩

variable {s} {engine : Engine.State σ τ} {n : Nat} {p q : Progress} {f : Progress → Bool}

theorem has_set_self (hn : s.calls[n]? = some p) (hq : f q = true) :
    Has ⟨engine, s.calls.set n q⟩ f :=
  ⟨n, q, List.getElem?_set_self (List.getElem?_eq_some_iff.mp hn).1, hq⟩

/-- What holds of some call holds of it after a step, if the step keeps it. -/
theorem Has.set (h : s.Has f) (hn : s.calls[n]? = some p) (hpq : f p = true → f q = true) :
    Has ⟨engine, s.calls.set n q⟩ f := by
  obtain ⟨m, r, hm, hr⟩ := h
  by_cases hmn : m = n
  · subst hmn
    obtain rfl := Option.some.inj (hn.symm.trans hm)
    exact has_set_self hn (hpq hr)
  · exact ⟨m, r, (List.getElem?_set_ne (Ne.symm hmn)).trans hm, hr⟩

/-- What holds of some call after a step held of it before, if the step does not bring it about. -/
theorem Has.of_set (h : Has ⟨engine, s.calls.set n q⟩ f) (hn : s.calls[n]? = some p)
    (hqp : f q = true → f p = true) : s.Has f := by
  obtain ⟨m, r, hm, hr⟩ := h
  rcases Interleaving.getElem?_set_cases hm with ⟨-, rfl⟩ | ⟨-, hm⟩
  · exact ⟨n, p, hn, hqp hr⟩
  · exact ⟨m, r, hm, hr⟩

end State

/-- What happens next. -/
inductive Move (σ τ : Type) where
  /-- This call makes a step. -/
  | call (n : Nat)
  /-- The engine is used from elsewhere, which leaves its worker and its journal alone. -/
  | elsewhere (s : Engine.State σ τ)

variable (e : Engine σ τ)

/-- The state after a move.  A call that waits for the lock makes no step while it is held. -/
def next (s : State σ τ) : Move σ τ → State σ τ
  | .call n =>
    match s.calls[n]? with
    | none => s
    | some p =>
      if s.locked && p.waits then s
      else ⟨(step e p s.engine).2, s.calls.set n (step e p s.engine).1⟩
  | .elsewhere t =>
    { s with engine := { t with
      subscription := s.engine.subscription
      journal := s.engine.journal } }

/-- The state after moves in any order. -/
def run (s : State σ τ) (moves : List (Move σ τ)) : State σ τ := moves.foldl (next e) s

variable {e}

theorem run_append (s : State σ τ) (moves more : List (Move σ τ)) :
    run e s (moves ++ more) = run e (run e s moves) more := List.foldl_append

theorem run_concat (s : State σ τ) (moves : List (Move σ τ)) (move : Move σ τ) :
    run e s (moves ++ [move]) = next e (run e s moves) move := run_append s moves [move]

/-- **A move**: one call makes a step, or nothing happens to calls, worker and journal. -/
inductive Moves (s : State σ τ) : Move σ τ → State σ τ → Prop
  | idle {move : Move σ τ} {t : State σ τ} :
      t.calls = s.calls → t.engine.subscription = s.engine.subscription →
      t.engine.journal = s.engine.journal → Moves s move t
  | acts {n : Nat} {p q : Progress} {engine : Engine.State σ τ} : s.calls[n]? = some p →
      (p.waits = true → s.locked = false) → Acts s.engine p q engine →
        Moves s (.call n) ⟨engine, s.calls.set n q⟩

theorem next_call {s : State σ τ} {n : Nat} {p : Progress} (hn : s.calls[n]? = some p)
    (hfree : p.waits = true → s.locked = false) :
    next e s (.call n) = ⟨(step e p s.engine).2, s.calls.set n (step e p s.engine).1⟩ := by
  rw [next, hn]
  refine if_neg fun h => ?_
  obtain ⟨hlocked, hwaits⟩ := Bool.and_eq_true_iff.mp h
  exact nomatch hlocked.symm.trans (hfree hwaits)

theorem next_moves (s : State σ τ) (move : Move σ τ) : Moves s move (next e s move) := by
  cases move with
  | elsewhere t => exact .idle rfl rfl rfl
  | call n =>
    cases hn : s.calls[n]? with
    | none =>
      rw [next, hn]
      exact .idle rfl rfl rfl
    | some p =>
      by_cases hfree : p.waits = true → s.locked = false
      · rw [next_call hn hfree]
        exact .acts hn hfree (step_acts s.engine p)
      · rw [Classical.not_imp, Bool.not_eq_false] at hfree
        rw [next, hn]
        simp only [hfree.1, hfree.2, Bool.and_self, reduceIte]
        exact .idle rfl rfl rfl

/-- How many steps calls make at most, all together. -/
def totalRemaining : List Progress → Nat
  | [] => 0
  | p :: calls => p.remaining + totalRemaining calls

/-- A step of one call brings all of them closer to their end. -/
theorem totalRemaining_set {calls : List Progress} {n : Nat} {p q : Progress}
    (hn : calls[n]? = some p) (hlt : q.remaining < p.remaining) :
    totalRemaining (calls.set n q) < totalRemaining calls := by
  induction calls generalizing n with
  | nil => cases hn
  | cons r calls ih =>
    cases n with
    | zero =>
      obtain rfl := Option.some.inj hn
      exact Nat.add_lt_add_right hlt _
    | succ n => exact Nat.add_lt_add_left (ih hn) _

/-- **No call waits for good**: whatever the state, the calls can still return, all of them. -/
theorem exists_returned (e : Engine σ τ) (s : State σ τ) :
    ∃ moves, (run e s moves).AllReturned := by
  induction htotal : totalRemaining s.calls using Nat.strongRecOn generalizing s with
  | ind total ih =>
    by_cases hdone : s.AllReturned
    · exact ⟨[], hdone⟩
    -- who holds the lock can make a step, and anybody can if nobody holds it
    obtain ⟨n, p, hn, hreturned, hfree⟩ : ∃ (n : Nat) (p : Progress), s.calls[n]? = some p ∧
        p.hasReturned = false ∧ (p.waits = true → s.locked = false) := by
      cases hlocked : s.locked with
      | true =>
        obtain ⟨n, p, hn, hp⟩ := s.locked_iff.mp hlocked
        obtain ⟨hreturned, hwaits⟩ := Progress.moves_of_holdsLock hp
        exact ⟨n, p, hn, hreturned, fun h => nomatch hwaits.symm.trans h⟩
      | false =>
        simp only [State.AllReturned, not_forall, Bool.not_eq_true] at hdone
        obtain ⟨p, hmem, hp⟩ := hdone
        obtain ⟨n, hn⟩ := List.mem_iff_getElem?.mp hmem
        exact ⟨n, p, hn, hp, fun _ => rfl⟩
    have hless : totalRemaining (next e s (.call n)).calls < total := by
      rw [next_call hn hfree, ← htotal]
      exact totalRemaining_set hn (remaining_step s.engine hreturned)
    obtain ⟨moves, hmoves⟩ := ih _ hless (next e s (.call n)) rfl
    exact ⟨.call n :: moves, hmoves⟩

/-! ## The lock, and who answers for a component -/

/-- **Order under the lock.** -/
structure Orderly (s : State σ τ) : Prop where
  /-- One call at a time holds the lock. -/
  one : ∀ (m n : Nat) (p q : Progress), s.calls[m]? = some p → s.calls[n]? = some q →
    p.holdsLock = true → q.holdsLock = true → m = n
  /-- There is no worker while a start holds the lock. -/
  stopped : s.Has Progress.holdsLock → s.engine.running = false
  /-- What is up belongs to the worker or to a call. -/
  accounted : ∀ c, s.engine.Up c → s.engine.running = true ∨ s.Has (·.answersFor c)

/-- The lock is taken where it is free, or kept. -/
theorem Acts.holdsLock {s t : Engine.State σ τ} {p q : Progress} (h : Acts s p q t)
    (hq : q.holdsLock = true) :
    p.waits = true ∨ p.holdsLock = true := by
  cases h with
  | quiet _ _ _ _ hlock => exact .inr (hlock hq)
  | locks => exact .inl rfl
  | calls hcalls => exact .inr (hcalls.holdsLock hq)
  | publishes => cases hq
  | takes => cases hq

/-- Who answers for a component that is up after a step. -/
theorem Acts.accounts {s t : Engine.State σ τ} {p q : Progress} (h : Acts s p q t) {c : Component}
    (hup : t.Up c) :
    t.running = true ∨ q.answersFor c = true ∨
      s.Up c ∧ t.running = s.running ∧ (p.answersFor c = true → q.answersFor c = true) := by
  cases h with
  | quiet hsub hjournal hanswers =>
    exact .inr
      (.inr ⟨(Engine.State.up_congr hjournal c).mp hup,
        Engine.State.running_congr hsub, hanswers c⟩)
  | locks => exact .inr (.inr ⟨hup, rfl, nofun⟩)
  | @calls _ _ _ call hcalls hsub hjournal =>
    have hq := hcalls.answersFor c
    by_cases hc : call.component = c
    · subst hc
      obtain ⟨hstarting, hsucceeded⟩ := (Engine.State.up_noted hjournal).mp hup
      rw [if_pos rfl, hstarting, hsucceeded] at hq
      exact .inr (.inl hq)
    · rw [if_neg hc] at hq
      have hup := (Engine.State.up_noted_of_ne hjournal hc).mp hup
      exact .inr (.inr ⟨hup, Engine.State.running_congr hsub, hq.trans⟩)
  | publishes => exact .inl rfl
  | takes => exact .inr (.inl rfl)

namespace Orderly

variable {s t : State σ τ}

/-- A step of a call keeps the order. -/
theorem acts (h : Orderly s) {n : Nat} {p q : Progress} {engine : Engine.State σ τ}
    (hn : s.calls[n]? = some p) (hfree : p.waits = true → s.locked = false)
    (hacts : Acts s.engine p q engine) :
    Orderly ⟨engine, s.calls.set n q⟩ := by
  -- no other call holds the lock when this one holds it behind its step
  have hnone : ∀ m r, m ≠ n → s.calls[m]? = some r → r.holdsLock = true →
      q.holdsLock = true → False := by
    intro m r hmn hm hr hq
    rcases hacts.holdsLock hq with hwaits | hp
    · exact nomatch (hfree hwaits).symm.trans (s.locked_iff.mpr ⟨m, r, hm, hr⟩)
    · exact hmn (h.one m n r p hm hn hr hp)
  refine ⟨fun i j r r' hi hj hr hr' => ?_, fun hlocked => ?_, fun c hup => ?_⟩
  · rcases Interleaving.getElem?_set_cases hi with ⟨hin, hrq⟩ | ⟨hin, hold⟩ <;>
      rcases Interleaving.getElem?_set_cases hj with ⟨hjn, hrq'⟩ | ⟨hjn, hold'⟩
    · exact hin.trans hjn.symm
    · exact (hnone j r' hjn hold' hr' (hrq ▸ hr)).elim
    · exact (hnone i r hin hold hr (hrq' ▸ hr')).elim
    · exact h.one i j r r' hold hold' hr hr'
  · cases hacts with
    | quiet hsub _ _ _ hlock =>
      exact (Engine.State.running_congr hsub).trans (h.stopped (hlocked.of_set hn hlock))
    | locks hrun => exact hrun
    | calls hcalls hsub =>
      exact (Engine.State.running_congr hsub).trans (h.stopped (hlocked.of_set hn hcalls.holdsLock))
    | publishes k =>
      obtain ⟨m, r, hm, hr⟩ := hlocked
      rcases Interleaving.getElem?_set_cases hm with ⟨-, rfl⟩ | ⟨hmn, hm⟩
      · cases hr
      · exact absurd (h.one m n r _ hm hn hr rfl) hmn
    | takes => rfl
  · rcases hacts.accounts hup with hrun | hq | ⟨hup, hrun, hpq⟩
    · exact .inl hrun
    · exact .inr (State.has_set_self hn hq)
    · exact (h.accounted c hup).imp hrun.trans fun hhas => hhas.set hn hpq

theorem moves (h : Orderly s) {move : Move σ τ} (hmoves : Moves s move t) : Orderly t := by
  cases hmoves with
  | acts hn hfree hacts => exact h.acts hn hfree hacts
  | idle hcalls hsub hjournal =>
    have hhas : ∀ f, t.Has f ↔ s.Has f := fun f => by rw [State.Has, State.Has, hcalls]
    have hrun : t.engine.running = s.engine.running := Engine.State.running_congr hsub
    refine ⟨hcalls ▸ h.one, fun hlocked =>
      hrun.trans (h.stopped ((hhas _).mp hlocked)), fun c hup => ?_⟩
    rw [hrun, hhas]
    exact h.accounted c ((Engine.State.up_congr hjournal c).mp hup)

theorem run (h : Orderly s) (moves : List (Move σ τ)) : Orderly (run e s moves) := by
  induction moves generalizing s with
  | nil => exact h
  | cons move moves ih => exact ih (h.moves (next_moves s move))

theorem begin (storage : σ) (topic : τ) (requests : List Request) :
    Orderly (begin storage topic requests) := by
  have hbegun : ∀ {n : Nat} {p}, (Lifecycle.begin storage topic requests).calls[n]? = some p →
      p.holdsLock = false := by
    intro n p hp
    obtain ⟨request, -, rfl⟩ := List.mem_map.mp (List.mem_of_getElem? hp)
    rfl
  refine ⟨fun m n p q hp _ hlock => ?_, fun _ => rfl, fun c (hup : none = some _) => ?_⟩
  · exact nomatch (hbegun hp).symm.trans hlock
  · exact nomatch hup

end Orderly

/-! ## What is counted on -/

/-- This call is about to stop a component that is counted on. -/
def Undercuts (s : State σ τ) (n : Nat) (c : Component) : Prop :=
  (∃ p, s.calls[n]? = some p ∧ p.aboutToStop c = true) ∧ s.Relied c

/-- A component that was stopped while it was counted on, and not started since. -/
def Undercut (e : Engine σ τ) (s : State σ τ) (moves : List (Move σ τ)) (c : Component) : Prop :=
  ∃ before n rest later, moves = before ++ .call n :: rest ∧ Undercuts (run e s before) n c ∧
    (run e s moves).engine.journal = (run e s (before ++ [.call n])).engine.journal ++ later ∧
      ∀ call ∈ later, call.component = c → call.starting = false

/-- What is counted on is up, or was undercut. -/
def Sound (e : Engine σ τ) (s : State σ τ) (moves : List (Move σ τ)) : Prop :=
  ∀ c, (run e s moves).Relied c → (run e s moves).engine.Up c ∨ Undercut e s moves c

/-- What is counted on after a move was counted on before, unless the move calls the component. -/
theorem Moves.relied {s t : State σ τ} {move : Move σ τ} (h : Moves s move t) {c : Component}
    (hc : t.Relied c) :
    s.Relied c ∧ (t.engine.journal = s.engine.journal ∨
        ∃ call, call.component ≠ c ∧ t.engine.journal = s.engine.journal ++ [call]) ∨
      ∃ n p q call, move = .call n ∧ s.calls[n]? = some p ∧
        t.calls = s.calls.set n q ∧ Calls p call q ∧
        call.component = c ∧ t.engine.subscription = s.engine.subscription ∧
        t.engine.journal = s.engine.journal ++ [call] := by
  cases h with
  | idle hcalls hsub hjournal =>
    refine .inl ⟨?_, .inl hjournal⟩
    rwa [State.Relied, State.Has, hcalls, Engine.State.running_congr hsub] at hc
  | @acts n p q engine hn _ hacts =>
    cases hacts with
    | quiet hsub hjournal _ hcounts =>
      have hrun := Engine.State.running_congr hsub
      exact .inl ⟨hc.imp hrun.symm.trans fun h => h.of_set hn (hcounts c), .inl hjournal⟩
    | locks => exact .inl ⟨hc.imp id fun h => h.of_set hn nofun, .inl rfl⟩
    | @calls _ _ _ call hcalls hsub hjournal =>
      by_cases hcomp : call.component = c
      · exact .inr ⟨n, p, q, call, rfl, hn, rfl, hcalls, hcomp, hsub, hjournal⟩
      · have hrun := Engine.State.running_congr hsub
        exact .inl ⟨hc.imp hrun.symm.trans fun h => h.of_set hn (hcalls.countsOn hcomp),
          .inr ⟨call, hcomp, hjournal⟩⟩
    | publishes k => exact .inl ⟨.inr ⟨n, _, hn, rfl⟩, .inl rfl⟩
    | takes => exact .inl ⟨.inr ((hc.resolve_left nofun).of_set hn nofun), .inl rfl⟩

/-- Where a component is counted on behind a call to it, it is up, or the call undercuts it. -/
theorem Orderly.up_or_undercuts {s t : State σ τ} (h : Orderly s) {n : Nat} {p q : Progress}
    {call : LifecycleCall} (hn : s.calls[n]? = some p) (ht : t.calls = s.calls.set n q)
    (hcalls : Calls p call q) (hsub : t.engine.subscription = s.engine.subscription)
    (hjournal : t.engine.journal = s.engine.journal ++ [call]) (hc : t.Relied call.component) :
    t.engine.Up call.component ∨ Undercuts s n call.component := by
  have hrun := Engine.State.running_congr hsub
  have hup : q.countsOn call.component = true → t.engine.Up call.component := by
    intro hq
    have hanswers := hcalls.answersFor call.component
    rw [Progress.answersFor_of_countsOn hq, if_pos rfl] at hanswers
    exact (Engine.State.up_noted hjournal).mpr (Bool.and_eq_true_iff.mp hanswers.symm)
  by_cases hq : q.countsOn call.component = true
  · exact .inl (hup hq)
  have hs : s.Relied call.component := by
    refine hc.imp hrun.symm.trans fun ⟨m, r, hm, hr⟩ => ?_
    rw [ht] at hm
    rcases Interleaving.getElem?_set_cases hm with ⟨-, rfl⟩ | ⟨-, hm⟩
    · exact absurd hr hq
    · exact ⟨m, r, hm, hr⟩
  rcases hcalls.locked_or_stops with hlock | ⟨-, hstops⟩
  · -- who holds the lock is not counted on by the worker, nor by another start
    rcases hc with hc | ⟨m, r, hm, hr⟩
    · exact nomatch (h.stopped ⟨n, p, hn, hlock⟩).symm.trans (hrun.symm.trans hc)
    · rw [ht] at hm
      rcases Interleaving.getElem?_set_cases hm with ⟨-, rfl⟩ | ⟨hmn, hm⟩
      · exact absurd hr hq
      · exact absurd (h.one m n r p hm hn (Progress.holdsLock_of_countsOn hr) hlock) hmn
  · exact .inr ⟨⟨p, hn, hstops⟩, hs⟩

namespace Undercut

variable {s : State σ τ} {moves : List (Move σ τ)} {c : Component}

theorem now {n : Nat} (h : Undercuts (run e s moves) n c) : Undercut e s (moves ++ [.call n]) c :=
  ⟨moves, n, [], [], rfl, h, (List.append_nil _).symm, nofun⟩

/-- What was undercut stays so until it is started. -/
theorem later (h : Undercut e s moves c) {move : Move σ τ} {calls : List LifecycleCall}
    (hjournal : (next e (run e s moves) move).engine.journal =
      (run e s moves).engine.journal ++ calls)
    (hcalls : ∀ call ∈ calls, call.component = c → call.starting = false) :
    Undercut e s (moves ++ [move]) c := by
  obtain ⟨before, n, rest, past, rfl, hcuts, hpast, hnone⟩ := h
  refine ⟨before, n, rest ++ [move], past ++ calls, ?_, hcuts, ?_, fun call hmem => ?_⟩
  · rw [List.append_assoc, List.cons_append]
  · rw [run_concat, hjournal, hpast, List.append_assoc]
  · exact (List.mem_append.mp hmem).elim (hnone call) (hcalls call)

theorem not_up (h : Undercut e s moves c) : ¬ (run e s moves).engine.Up c := by
  obtain ⟨before, n, rest, later, rfl, ⟨⟨p, hn, hstops⟩, -⟩, hlater, hnone⟩ := h
  refine Engine.State.not_up_append hlater ?_ hnone
  rw [run_concat]
  obtain ⟨ok, hjournal⟩ := step_stops (e := e) (run e s before).engine hstops
  rw [next_call hn fun hwaits => nomatch hwaits.symm.trans (Progress.waits_of_aboutToStop hstops)]
  exact fun hup => nomatch ((Engine.State.up_noted hjournal).mp hup).1

end Undercut

namespace Sound

variable {s : State σ τ} {moves : List (Move σ τ)}

/-- A move keeps what is counted on up, or undercuts it. -/
theorem concat (h : Sound e s moves) (horder : Orderly (run e s moves)) (move : Move σ τ) :
    Sound e s (moves ++ [move]) := by
  intro c hc
  rw [run_concat] at hc ⊢
  rcases (next_moves (run e s moves) move).relied hc with ⟨hrelied, hjournal⟩ | hcalled
  · rcases h c hrelied with hup | hcut <;> rcases hjournal with hsame | ⟨call, hne, hnoted⟩
    · exact .inl ((Engine.State.up_congr hsame c).mpr hup)
    · exact .inl ((Engine.State.up_noted_of_ne hnoted hne).mpr hup)
    · exact .inr (hcut.later (hsame.trans (List.append_nil _).symm) nofun)
    · refine .inr (hcut.later hnoted fun other hother hcomp => ?_)
      rw [List.mem_singleton.mp hother] at hcomp
      exact absurd hcomp hne
  · obtain ⟨n, p, q, call, rfl, hn, ht, hcalls, rfl, hsub, hnoted⟩ := hcalled
    exact (horder.up_or_undercuts hn ht hcalls hsub hnoted hc).imp id Undercut.now

theorem run (h : Sound e s moves) (horder : Orderly (run e s moves)) (more : List (Move σ τ)) :
    Sound e s (moves ++ more) := by
  induction more generalizing moves with
  | nil => rwa [List.append_nil]
  | cons move more ih =>
    rw [List.append_cons]
    refine ih (h.concat horder move) ?_
    rw [run_concat]
    exact horder.moves (next_moves _ move)

theorem begin (storage : σ) (topic : τ) (requests : List Request) :
    Sound e (begin storage topic requests) [] := by
  rintro c (hrun | ⟨n, p, hp, hcounts⟩)
  · exact nomatch hrun
  · obtain ⟨request, -, rfl⟩ := List.mem_map.mp (List.mem_of_getElem? hp)
    exact nomatch hcounts

end Sound

/-! ## Agreement -/

/-- **Starts and stops that race.**  Once all calls have returned, worker and components agree just
if no component was undercut under a worker that is there.  No component is up without a worker, and
under a worker a component is up just if it was not undercut since it was last started. -/
theorem agreement_after_calls (e : Engine σ τ) (storage : σ) (topic : τ) (requests : List Request)
    (moves : List (Move σ τ)) (h : (run e (begin storage topic requests) moves).AllReturned) :
    let s := run e (begin storage topic requests) moves
    let Undercut := Undercut e (begin storage topic requests) moves
    ((s.engine.running = true ↔ ∀ c, s.engine.Up c) ↔
      (s.engine.running = true → ∀ c, ¬ Undercut c)) ∧
      (s.engine.running = false → ∀ c, ¬ s.engine.Up c) ∧
      (s.engine.running = true → ∀ c, s.engine.Up c ↔ ¬ Undercut c) := by
  intro s Undercut
  have horder : Orderly s := (Orderly.begin storage topic requests).run moves
  have hsound : Sound e (begin storage topic requests) moves :=
    (Sound.begin storage topic requests).run (Orderly.begin storage topic requests) moves
  have hidle : s.engine.running = false → ∀ c, ¬ s.engine.Up c := by
    intro hrun c hup
    rcases horder.accounted c hup with hrun' | ⟨n, p, hn, hp⟩
    · exact nomatch hrun.symm.trans hrun'
    · -- a call that has returned answers for nothing
      cases p with
      | returned => exact nomatch hp
      | _ => exact nomatch h _ (List.mem_of_getElem? hn)
  have hworks : s.engine.running = true → ∀ c, s.engine.Up c ↔ ¬ Undercut c := fun hrun c =>
    ⟨fun hup hcut => hcut.not_up hup, (hsound c (.inl hrun)).resolve_right⟩
  refine ⟨?_, hidle, hworks⟩
  cases hrun : s.engine.running with
  | false =>
    have hdown := hidle hrun .backend
    exact ⟨fun _ => nofun, fun _ => ⟨nofun, fun hup => absurd (hup .backend) hdown⟩⟩
  | true =>
    have hup := hworks hrun
    exact ⟨fun hagree _ c => (hup c).mp (hagree.mp rfl c),
      fun hnone => ⟨fun _ c => (hup c).mpr (hnone rfl c), fun _ => rfl⟩⟩

/-- Calls on a small engine, a start, a stop and a second start, that make their
steps in this order. -/
abbrev sampleRun (moves : List Nat) : State Memory (Hub Message) :=
  run (Sample.engine Octets.zero false) (begin .empty .empty [.start, .stop, .start])
    (moves.map .call)

/-- Calls that try for the lock while another holds it, and agree in the end. -/
theorem agreement_after_calls_in_turn :
    let moves := [0, 0, 1, 2, 0, 0, 0, 0, 1, 1, 1, 1, 2, 2, 2, 2, 2, 2]
    let s := sampleRun moves
    s.AllReturned ∧ s.engine.running = true ∧ (∀ c, s.engine.Up c) ∧
      ∀ c, ¬ Undercut (Sample.engine Octets.zero false)
        (begin .empty .empty [.start, .stop, .start]) (moves.map .call) c := by
  intro moves s
  have hreturned : s.AllReturned := by decide
  have hrun : s.engine.running = true := by decide
  have hup : ∀ c, s.engine.Up c := by
    intro c
    cases c <;> decide
  obtain ⟨hagree, -⟩ := agreement_after_calls (Sample.engine Octets.zero false) .empty .empty
    [.start, .stop, .start] (moves.map .call) hreturned
  exact ⟨hreturned, hrun, hup, hagree.mp ⟨fun _ => hup, fun _ => hrun⟩ hrun⟩

/-- A start in the middle of a stop: all calls succeed, also those to components, but the stop ends
by stopping what the start has started and leaves a worker on components that are down. -/
theorem stop_undercuts_start :
    let s := sampleRun [0, 0, 0, 0, 0, 0, 1, 2, 2, 2, 2, 2, 2, 1, 1, 1]
    s.calls = [.returned (.ok ()), .returned (.ok ()), .returned (.ok ())] ∧
      (∀ call ∈ s.engine.journal, call.succeeded = true) ∧
      ¬ (s.engine.running = true ↔ ∀ c, s.engine.Up c) := by
  intro s
  refine ⟨rfl, by decide, fun hagree => ?_⟩
  have hdown : ¬ s.engine.Up .backend := by decide
  exact hdown (hagree.mp (by decide) .backend)

/-- A stop that is given up where it waits for the worker's task has taken the worker and
stopped no component. -/
theorem overdue_stop (e : Engine σ τ) {limit : Duration} (hlimit : limit.nanos = 0)
    (takes : Duration) {s : Engine.State σ τ} (hrun : s.running = true) :
    ((Shutdown.stopWithin e limit takes).after s).running = false ∧
      ∀ c, ((Shutdown.stopWithin e limit takes).after s).Up c ↔ s.Up c := by
  obtain ⟨n, hn⟩ := Option.isSome_iff_exists.mp hrun
  have hafter : (Shutdown.stopWithin e limit takes).after s = (e.detach n).after s := by
    rw [Shutdown.stopWithin, after, bind_apply, gets_apply, hn]
    simp only [hlimit, reduceIte]
    rfl
  rw [hafter]
  exact ⟨rfl, fun _ => .rfl⟩

end Lifecycle
end SealedStore
