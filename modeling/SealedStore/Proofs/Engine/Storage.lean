import SealedStore.Engine.Basic
import SealedStore.Proofs.Outbox

/-! # The engine and what its backend holds

What is seen of an engine's state is what its storage holds.  Starting, stopping and reading leave
it as it is, whatever fails on the way (`start_keeps`, `stop_keeps`); a start hands over what waits
in the outbox (`start_ensures`).
-/
namespace SealedStore

open Step

namespace Engine

variable {σ τ α : Type}

/-- What is seen of an engine's state. -/
abbrev view (V : Contents.View σ) : Contents.View (State σ τ) := V.comap State.storage

/-! ## Steps of the parts -/

theorem onStorage_ensures {m : Step σ α} {P : σ → Prop} {Q : α → σ → Prop}
    {E : StoreError → σ → Prop} (h : Ensures P m Q E) :
      Ensures (fun s : State σ τ => P s.storage) (onStorage m)
      (fun a s => Q a s.storage) fun e s => E e s.storage := by
  refine .within fun s hs => ?_
  rintro _ rfl
  exact h s.storage hs

section
variable {V : Contents.View σ} {c : Contents} {E : StoreError → State σ τ → Prop}

theorem count_ensures (metric : Metric) :
    Ensures ((view V).Holds c) (count metric) (fun _ => (view V).Holds c) E := fun _ hs => hs

end

/-- A step of the topic keeps what does not speak of it. -/
theorem onTopic_keeps {P : State σ τ → Prop} (hP : ∀ s topic, P s → P { s with topic })
    (m : Step τ α) :
    Keeps P (onTopic m) :=
  .of_cases (fun s _ hs _ => hP s (m.after s.topic) hs) fun s _ hs _ => hP s (m.after s.topic) hs

variable {e : Engine σ τ}

/-! ## Starting and stopping -/

/-- What is kept by starting and stopping the backend, and does not speak of the
topic and the journal. -/
structure Settled (e : Engine σ τ) (P : State σ τ → Prop) : Prop where
  start : Keeps P (onStorage e.backend.start)
  stop : Keeps P (onStorage e.backend.stop)
  topic : ∀ s topic, P s → P { s with topic }
  journal : ∀ s journal, P s → P { s with journal }

section
variable {P : State σ τ → Prop} (hP : Settled e P)
include hP

theorem lifecycle_keeps {component : Component} {starting : Bool} {call : Step (State σ τ) Unit}
    (h : Keeps P call) : Keeps P (lifecycle component starting call) := by
  refine .bind (Q := fun _ => P) (.attempt h) fun result => ?_
  refine .bind (Q := fun _ => P) (.modify fun s hs => hP.journal s _ hs) fun _ => ?_
  exact .ofExcept (fun _ _ _ hs => hs) fun _ _ _ hs => hs

theorem startBackend_keeps : Keeps P e.startBackend := lifecycle_keeps hP hP.start

theorem stopBackend_keeps : Keeps P e.stopBackend := lifecycle_keeps hP hP.stop

theorem startTopic_keeps : Keeps P e.startTopic := lifecycle_keeps hP (onTopic_keeps hP.topic _)

theorem stopTopic_keeps : Keeps P e.stopTopic := lifecycle_keeps hP (onTopic_keeps hP.topic _)

theorem connect_keeps : Keeps P e.connect := by
  refine .bind (startBackend_keeps hP) fun _ => ?_
  refine .bind (Q := fun _ => P) (.attempt (startTopic_keeps hP)) fun started => ?_
  cases started with
  | error err =>
    refine .bind (Q := fun _ => P) (.ignore (stopBackend_keeps hP)) fun _ => ?_
    exact .fail fun _ hs => hs
  | ok _ =>
    refine .bind (Q := fun _ => P) (.attempt (onTopic_keeps hP.topic _)) fun subscribed => ?_
    cases subscribed with
    | error err =>
      refine .bind (Q := fun _ => P) (.ignore (stopTopic_keeps hP)) fun _ => ?_
      refine .bind (Q := fun _ => P) (.ignore (stopBackend_keeps hP)) fun _ => ?_
      exact .fail fun _ hs => hs
    | ok n => exact .pure fun _ hs => hs

variable (hsubscription : ∀ s subscription, P s → P { s with subscription })
include hsubscription

/-- What is kept by reading what waits is kept by a start, unless it speaks of the subscription or
of what is to be published. -/
theorem Settled.keeps_start (hpending : Keeps P (onStorage (Outbox.pending e.backend)))
    (houtgoing : ∀ s outgoing, P s → P { s with outgoing }) : Keeps P e.start := by
  refine .bind (Q := fun _ => P) (.gets fun _ hs => hs) fun running => ?_
  cases running with
  | true => exact .fail fun _ hs => hs
  | false =>
    refine .bind (connect_keeps hP) fun n => ?_
    refine .bind (Q := fun _ => P) (.modify fun s hs => hsubscription s _ hs) fun _ => ?_
    show Keeps _ (if e.keepsOutbox then _ else _)
    split
    · refine .bind (Q := fun _ => P) (.attempt hpending) fun found => ?_
      cases found with
      | ok ms => exact .modify fun s hs => houtgoing s _ hs
      | error _ => exact .pure fun _ hs => hs
    · exact .pure fun _ hs => hs

theorem Settled.keeps_stop : Keeps P e.stop := by
  refine .bind (Q := fun _ => P) (.gets fun _ hs => hs) fun subscription => ?_
  cases subscription with
  | none => exact .pure fun _ hs => hs
  | some n =>
    refine .bind (Q := fun _ => P) (.modify fun s hs => ?_) fun _ => ?_
    · exact hP.topic { s with subscription := none } _ (hsubscription s none hs)
    refine .bind (Q := fun _ => P) (.attempt (stopTopic_keeps hP)) fun topic => ?_
    refine .bind (Q := fun _ => P) (.attempt (stopBackend_keeps hP)) fun backend => ?_
    refine .bind (Q := fun _ => P) (.ofExcept (fun _ _ _ hs => hs) fun _ _ _ hs => hs) fun _ => ?_
    exact .ofExcept (fun _ _ _ hs => hs) fun _ _ _ hs => hs

end

variable (C : e.backend.Contract) (c : Contents)

theorem settled_holds : Settled e ((view C.toView).Holds c) where
  start := onStorage_ensures (C.start c)
  stop := onStorage_ensures (C.stop c)
  topic _ _ hs := hs
  journal _ _ hs := hs

omit C c in
/-- Taking up what waits never fails. -/
theorem requeuePending_outcome (s : State σ τ) : e.requeuePending.outcome s = .ok () := by
  unfold requeuePending
  rw [outcome, bind_apply]
  cases hout : (onStorage (τ := τ) (Outbox.pending e.backend) s).1 <;> simp [hout, enqueue]

theorem start_keeps : Keeps ((view C.toView).Holds c) e.start :=
  (settled_holds C c).keeps_start (fun _ _ hs => hs) (onStorage_ensures (Outbox.pending_keeps C c))
    fun _ _ hs => hs

theorem stop_keeps : Keeps ((view C.toView).Holds c) e.stop :=
  (settled_holds C c).keeps_stop fun _ _ hs => hs

variable {C} in
/-- **A start takes up all that waits**: from a stopped engine without anything to publish, one that
succeeds hands over what waits in the outbox, in order. -/
theorem start_ensures (hC : C.ServesOutbox) (hkeeps : e.keepsOutbox = true) {ms : List Message}
    (hms : c.waiting? = some ms) :
    Ensures (fun s => (view C.toView).Holds c s ∧ s.outgoing = []) e.start
      (fun _ s => (view C.toView).Holds c s ∧ s.outgoing = ms)
      fun _ => (view C.toView).Holds c := by
  have hP : Settled e (fun s => (view C.toView).Holds c s ∧ s.outgoing = []) := by
    refine ⟨?_, ?_, fun _ _ hs => hs, fun _ _ hs => hs⟩
    · refine .within fun s hs => ?_
      refine (C.start c).mono (fun _ h => h ▸ hs.1) (fun _ _ h => ⟨h, hs.2⟩) fun _ _ h => ⟨h, hs.2⟩
    · refine .within fun s hs => ?_
      refine (C.stop c).mono (fun _ h => h ▸ hs.1) (fun _ _ h => ⟨h, hs.2⟩) fun _ _ h => ⟨h, hs.2⟩
  refine .bind (Q := fun _ s => (view C.toView).Holds c s ∧ s.outgoing = []) (.gets fun _ hs => hs)
    fun running => ?_
  cases running with
  | true => exact .fail fun _ hs => hs.1
  | false =>
    refine .bind ((connect_keeps hP).mono (fun _ hs => hs) (fun _ _ hs => hs) fun _ _ hs => hs.1)
      fun n => ?_
    refine .bind (Q := fun _ s => (view C.toView).Holds c s ∧ s.outgoing = [])
      (.modify fun _ hs => hs) fun _ => ?_
    show Ensures _ (if e.keepsOutbox then _ else _) _ _
    rw [if_pos hkeeps]
    -- the error that would be dropped here does not occur, since the outbox can be read
    refine .bind (Q := fun found s => found = .ok ms ∧ (view C.toView).Holds c s ∧ s.outgoing = [])
      (.attempt ?_) fun found => .of_fact fun hfound => ?_
    · refine .within fun s hs => ?_
      refine (Outbox.pending_ensures hC c).mono (fun _ h => h ▸ hs.1) (fun ns _ h => ?_)
        fun _ _ h => ?_
      · exact ⟨congrArg Except.ok (Option.some.inj (h.1.symm.trans hms)), h.2, hs.2⟩
      · rw [hms] at h
        cases h.1.1
    · subst hfound
      refine .modify fun s hs => ⟨hs.1, ?_⟩
      rw [hs.2, List.nil_append]

/-! ## Records and values -/

omit C c in
theorem checkPeeker_ok_iff {r : Record} {id : RecordId} {caller : Address} {action : Action} :
    checkPeeker r id caller action = .ok () ↔ caller ∈ r.allowedPeekers := by
  unfold checkPeeker
  split
  · next h => simpa [Record.isPeeker] using h
  · next h => simpa [Record.isPeeker] using h

theorem fetch_ensures (id : RecordId) : Ensures ((view C.toView).Holds c) (e.fetch id)
    (fun r s => c.records id = some r ∧ (view C.toView).Holds c s)
    fun _ => (view C.toView).Holds c :=
  onStorage_ensures (C.fetch c id)

theorem list_keeps (block : BitVec 64) (space : String) :
    Keeps ((view C.toView).Holds c) (e.list block space) :=
  onStorage_ensures
    ((C.list c block space).mono (fun _ hs => hs) (fun _ _ hs => hs.2) fun _ _ hs => hs)

theorem retrieve_keeps (id : RecordId) (caller : Address) (key : String) :
    Keeps ((view C.toView).Holds c) (e.retrieve id caller key) := by
  refine onStorage_ensures (P := C.Holds c) (Q := fun _ => C.Holds c) (E := fun _ => C.Holds c) ?_
  refine .bind (C.fetch c id) fun r => .of_fact fun _ => ?_
  refine .bind (Q := fun _ => C.Holds c) (.ofExcept (fun _ _ _ hs => hs) fun _ _ _ hs => hs)
    fun _ => ?_
  exact (C.retrieve c r key).mono (fun _ hs => hs) (fun _ _ hs => hs.2) fun _ _ hs => hs.2

end Engine
end SealedStore
