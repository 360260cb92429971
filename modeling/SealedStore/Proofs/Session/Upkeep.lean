import SealedStore.Proofs.Session

/-! # What a node asks of its backend

A draft that is not finalized reads of its engine and does nothing else to it (`Draft.Reads`).  All
that a node ever asks of its backend are the operations of `Backend.Upkeep`: it initializes and
stores under records that bear their derived ids alone, and touches the outbox by pushing and
acknowledging.  So what these operations keep every event keeps, whatever it is and whatever fails
(`Session.act_upkeep`).
-/
namespace SealedStore

open Step

variable {σ τ α : Type}

/-! ## Drafts -/

namespace Draft

/-- Whether an execution stands on an engine with `P`. -/
abbrev On (P : Engine.State σ τ → Prop) (x : Execution σ τ) : Prop := P x.engine

variable {e : Engine σ τ} {P : Engine.State σ τ → Prop}

theorem on_onEngine {m : Step (Engine.State σ τ) α} (h : Keeps P m) : Keeps (On P) (onEngine m) :=
  Ensures.on_part (fun _ _ => rfl) h

theorem on_onDraft (m : Step Draft α) : Keeps (On P) (onDraft (σ := σ) (τ := τ) m) :=
  .of_cases (fun _ _ hx _ => hx) fun _ _ hx _ => hx

theorem on_look (f : Draft → Except StoreError α) : Keeps (On P) (look (σ := σ) (τ := τ) f) :=
  .of_cases (fun _ _ hx _ => hx) fun _ _ hx _ => hx

theorem on_init (r : Record) : Keeps (On P) (init e r) :=
  .bind (on_look _) fun _ => .bind (on_look _) fun _ => on_onDraft _

namespace Reads

/-- What keeps `P` along with any draft keeps `P`. -/
theorem on_of_stays {m : Step (Execution σ τ) α} (hm : ∀ d, Keeps (Stays P d) m) : Keeps (On P) m :=
  .of_after fun x hx => ((hm x.draft).after ⟨hx, rfl⟩).1

variable (h : Reads e P)
include h

theorem on_fetch (id : RecordId) : Keeps (On P) (Draft.fetch e id) :=
  on_of_stays fun _ => h.fetch_stays id

theorem on_retrieve (id : RecordId) (caller : Address) (key : String) :
    Keeps (On P) (Draft.retrieve e id caller key) :=
  on_of_stays fun _ => h.retrieve_stays id caller key

theorem on_list (block : BitVec 64) (space : String) : Keeps (On P) (Draft.list e block space) :=
  on_of_stays fun _ => h.list_stays block space

theorem on_store (id : RecordId) (caller : Address) (key : String) (value : Bytes) :
    Keeps (On P) (Draft.store e id caller key value) := by
  refine .bind (on_look _) fun found => ?_
  cases found with
  | some r => exact on_onDraft _
  | none => exact .bind (on_onEngine (h.fetch id)) fun r => on_onDraft _

end Reads

end Draft

/-! ## The backend -/

/-- **All that a node asks of its backend keeps `P`.** -/
structure Backend.Upkeep (b : Backend σ) (P : σ → Prop) : Prop where
  start : Keeps P b.start
  stop : Keeps P b.stop
  fetch : ∀ id, Keeps P (b.fetch id)
  list : ∀ block space, Keeps P (b.list block space)
  retrieve : ∀ r key, Keeps P (b.retrieve r key)
  init : ∀ r : Record, r.derivedId = r.id → Keeps P (b.init r)
  store : ∀ (r : Record) key value, r.derivedId = r.id → Keeps P (b.store r key value)
  push : ∀ m, Keeps P (Outbox.push b m)
  acknowledge : ∀ d, Keeps P (Outbox.acknowledge b d)

namespace Engine

/-! ## What an engine does besides keeping records and values -/

/-- **What is kept by all that an engine does besides keeping records and values.** -/
structure Routine (e : Engine σ τ) (P : State σ τ → Prop) : Prop extends Settled e P where
  pending : Keeps P (onStorage (Outbox.pending e.backend))
  push : ∀ m, Keeps P (onStorage (Outbox.push e.backend m))
  acknowledge : ∀ d, Keeps P (onStorage (Outbox.acknowledge e.backend d))
  subscription : ∀ s subscription, P s → P { s with subscription }
  outgoing : ∀ s outgoing, P s → P { s with outgoing }
  published : Keeps P (count .messagesPublished)
  refused : Keeps P (count .messagesPublishFailed)

namespace Routine

variable {e : Engine σ τ} {P : State σ τ → Prop} (h : Routine e P)
include h

theorem keeps_start : Keeps P e.start := h.toSettled.keeps_start h.subscription h.pending h.outgoing

theorem keeps_stop : Keeps P e.stop := h.toSettled.keeps_stop h.subscription

theorem keeps_publishNext : Keeps P e.publishNext :=
  Engine.keeps_publishNext h.acknowledge h.outgoing h.topic h.published h.refused

/-- A finalization, when its commit keeps `P` and `Q` holds once it is counted. -/
theorem ensures_finalize {Q : State σ τ → Prop} (tx : Transaction) {rs : List Record}
    {ws : List StoreWrite} (hcommit : Keeps P (e.commit rs ws))
    (hcounted : ∀ s outgoing, P s →
      Q { s with outgoing, metrics := (s.metrics.add .finalizeTotal 1).add .finalizeDuration 1 }) :
    Ensures P (e.finalize tx rs ws) (fun _ => Q) fun _ => P := by
  unfold Engine.finalize
  split
  · exact .fail fun _ hs => hs
  · refine .bind (Q := fun _ => P) (.ofExcept (fun _ _ _ hs => hs) fun _ _ _ hs => hs)
      fun message => ?_
    refine .bind (keeps_deposit h.push message) fun digest => ?_
    refine .bind_attempt hcommit (fun _ s hs => hcounted s _ hs) fun err => ?_
    exact .bind (keeps_withdraw h.acknowledge digest) fun _ => .fail fun _ hs => hs

end Routine

/-- Whether an engine's storage has `P`. -/
abbrev Stored (P : σ → Prop) (s : State σ τ) : Prop := P s.storage

theorem count_stored {P : σ → Prop} (metric : Metric) : Keeps (Stored (τ := τ) P) (count metric) :=
  fun _ hs => hs

variable {e : Engine σ τ} {P : σ → Prop} (h : e.backend.Upkeep P)
include h

theorem routine_stored : Routine e (Stored P) where
  start := onStorage_ensures h.start
  stop := onStorage_ensures h.stop
  topic _ _ hs := hs
  journal _ _ hs := hs
  pending := onStorage_ensures (Outbox.keeps_pending (h.retrieve _))
  push m := onStorage_ensures (h.push m)
  acknowledge d := onStorage_ensures (h.acknowledge d)
  subscription _ _ hs := hs
  outgoing _ _ hs := hs
  published := count_stored _
  refused := count_stored _

theorem reads_stored : Draft.Reads e (Stored P) where
  fetch id := onStorage_ensures (h.fetch id)
  retrieve id caller key := by
    refine onStorage_ensures (P := P) (Q := fun _ => P) (E := fun _ => P)
      (.bind (h.fetch id) fun r => ?_)
    refine .bind (Q := fun _ => P) (.ofExcept (fun _ _ _ hs => hs) fun _ _ _ hs => hs) fun _ => ?_
    exact h.retrieve r key
  list block space := onStorage_ensures (h.list block space)

theorem commit_upkeep {rs : List Record} {ws : List StoreWrite} (hrs : ∀ r ∈ rs, r.derivedId = r.id)
    (hws : ∀ w ∈ ws, w.record.derivedId = w.record.id) : Keeps (Stored P) (e.commit rs ws) := by
  refine .bind (.forEach fun r hr => ?_) fun _ => .forEach fun w hw => ?_
  · exact .bind (onStorage_ensures (h.init r (hrs r hr))) fun _ => count_stored _
  · exact .bind (onStorage_ensures (h.store _ _ _ (hws w hw))) fun _ => count_stored _

/-- A finalization of records and writes with derived ids. -/
theorem finalize_upkeep (tx : Transaction) {rs : List Record} {ws : List StoreWrite}
    (hrs : ∀ r ∈ rs, r.derivedId = r.id) (hws : ∀ w ∈ ws, w.record.derivedId = w.record.id) :
    Keeps (Stored P) (e.finalize tx rs ws) :=
  (routine_stored h).ensures_finalize tx (commit_upkeep h hrs hws) fun _ _ hs => hs

theorem applyWrite_upkeep {w : StoreWrite} (hw : w.record.derivedId = w.record.id) :
    Keeps (Stored P) (e.applyWrite w) := by
  refine applyWrite_calls (P := P) (M := P) (Q := P) ?_ (h.store _ _ _ hw)
  exact (h.init _ hw).mono (fun _ hs => hs) (fun _ _ hs => hs) fun err s hs =>
    (ite_self (P s)).symm ▸ hs

/-- Every write of an accepted message is under a record with its derived id. -/
theorem receive_upkeep (m : Message) : Keeps (Stored P) (e.receive m) := by
  refine receive_taken (P := P) (Q := P) (.forEach fun w hw => applyWrite_upkeep h ?_)
  obtain ⟨-, _, -, happroved⟩ := approved_of_taken hw
  exact happroved.derived

end Engine

/-! ## Events -/

namespace Session

variable {e : Engine σ τ} {s : Session σ τ}

theorem on_engine_onDraft {P : Engine.State σ τ → Prop} (hs : P s.engine) (n : Nat)
    {m : Step (Draft.Execution σ τ) α} (hm : ∀ d ∈ s.drafts, P (m.after ⟨s.engine, d⟩).engine) :
    P (onDraft n m s).engine := by
  unfold onDraft
  cases hn : s.drafts[n]? with
  | none => exact hs
  | some d => exact hm d (List.mem_of_getElem? hn)

/-- **A draft that is not finalized only reads of its engine.** -/
theorem act_reads {P : Engine.State σ τ → Prop} (h : Draft.Reads e P)
    (hs : P s.engine) {event : Event}
    {n : Nat} (hdraft : event.draft? = some n) (hfinal : event ≠ .finalize n) :
    P (act e s event).engine := by
  have hcall : ∀ {α : Type} {k : Nat} {m : Step (Draft.Execution σ τ) α}, Keeps (Draft.On P) m →
      P (onDraft k m s).engine := fun hm =>
    on_engine_onDraft hs _ fun d _ => hm.after (s := ⟨s.engine, d⟩) hs
  cases event with
  | init k r => exact hcall (Draft.on_init r)
  | store k id caller key value => exact hcall (h.on_store id caller key value)
  | retrieve k id caller key => exact hcall (h.on_retrieve id caller key)
  | fetch k id => exact hcall (h.on_fetch id)
  | list k block space => exact hcall (h.on_list block space)
  | finalize k => exact absurd (congrArg Event.finalize (Option.some.inj hdraft)) hfinal
  | _ => cases hdraft

/-- **What all operations of a node keep every event keeps.** -/
theorem act_upkeep {C : e.backend.Contract} {P : σ → Prop} (h : e.backend.Upkeep P)
    (hsound : Sound C s) (hs : P s.engine.storage) (event : Event) :
    P (act e s event).engine.storage := by
  cases event with
  | start => exact (Engine.routine_stored h).keeps_start.after hs
  | stop => exact (Engine.routine_stored h).keeps_stop.after hs
  | begin tx => exact hs
  | finalize n =>
    refine on_engine_onDraft (P := Engine.Stored P) hs n fun d hd => ?_
    have hdraft := hsound.drafts d hd
    cases hfinal : d.finalized with
    | true =>
      rw [Step.after, Draft.finalize_of_finalized (x := ⟨s.engine, d⟩) hfinal]
      exact hs
    | false =>
      rw [Draft.engine_finalize_of_open (x := ⟨s.engine, d⟩) hfinal]
      exact (Engine.finalize_upkeep h d.tx hdraft.staged fun w hw =>
        (hdraft.writes w hw).derived).after hs
  | put id key value =>
    -- the record was found under the id, so it bears its derived id
    have hput : Ensures (fun t => P t ∧ C.Holds (C.see s.engine.storage) t)
        (do let r ← e.backend.fetch id; e.backend.store r key value) (fun _ => P) fun _ => P := by
      refine .bind (Q := fun r t => (C.see s.engine.storage).records id = some r ∧ P t) ?_ fun r =>
        .of_fact fun hr => ?_
      · exact ((h.fetch id).and (C.fetch _ id)).mono (fun _ ht => ht) (fun _ _ ht => ⟨ht.2.1, ht.1⟩)
          fun _ _ ht => ht.1
      · obtain ⟨hid, hderived⟩ := hsound.genuine id r hr
        exact h.store r key value (hderived.trans hid.symm)
    exact (Engine.onStorage_ensures hput).after ⟨hs, hsound.valid, rfl⟩
  | receive m => exact (Engine.receive_upkeep h m).after hs
  | publish => exact (Engine.routine_stored h).keeps_publishNext.after hs
  | _ => exact act_reads (Engine.reads_stored h) hs rfl (by simp)

end Session
end SealedStore
