import SealedStore.Proofs.Engine.Deposit
import SealedStore.Proofs.Session

/-! # The messages that wait can be delivered

In every run over a reliable backend with an outbox, the outbox can be read, and every record that
one of its messages writes under is held just as the message carries it
(`Session.run_deliverable`).  A message is put into the outbox before its records are kept, so this
holds between calls and not within a finalization: one that succeeds has kept the records by its
end, and one that fails has blanked the message.
-/
namespace SealedStore

open Step

namespace Contents

/-- **A deliverable outbox**: it can be read, and the records of its messages are held. -/
structure Deliverable (c : Contents) : Prop where
  listed : c.digests? ≠ none
  held : ∀ d m, c.letter? d = some m → ∀ w ∈ m.writes, c.records w.record.id = some w.record

theorem deliverable_empty : Deliverable empty := ⟨nofun, nofun⟩

variable {c d : Contents}

/-- No message is added and no record lost. -/
theorem Deliverable.of_letters (h : c.Deliverable) (hgrows : c.Grows d)
    (hlisted : d.digests? ≠ none)
    (hletters : ∀ k m, d.letter? k = some m → c.letter? k = some m) : d.Deliverable :=
  ⟨hlisted, fun k m hm w hw => hgrows _ _ (h.held k m (hletters k m hm) w hw)⟩

theorem Deliverable.grow (h : c.Deliverable) (hsame : c.SameOutbox d) (hgrows : c.Grows d) :
    d.Deliverable := by
  refine h.of_letters hgrows ?_ fun k m hm => ?_
  · rw [hsame.digests?_eq]
    exact h.listed
  · rwa [hsame.letter?_eq] at hm

theorem Deliverable.acknowledged (h : c.Deliverable) {ds : List (Octets 32)}
    (hds : c.digests? = some ds) (k : Octets 32) : (c.acknowledged ds k).Deliverable := by
  refine h.of_letters (fun id r hr => ?_) ?_ fun i m hm => ?_
  · rwa [(c.agreesOff_acknowledged ds k).records]
  · rw [c.digests?_acknowledged hds]
    exact Option.some_ne_none _
  · by_cases hi : k = i
    · rw [Contents.acknowledged] at hm
      split at hm
      · rw [letter?_withLetter, if_pos hi, Message.decode?_nil] at hm
        cases hm
      · exact hm
    · rwa [c.letter?_acknowledged hi] at hm

theorem Deliverable.withdrawn (h : c.Deliverable) {message : Option Message}
    (hd : c.Withdrawn message d) (hgrows : c.Grows d) : d.Deliverable := by
  cases message with
  | none => exact h.grow hd hgrows
  | some m =>
    obtain ⟨hdigests, hletters, hblank⟩ := hd
    refine h.of_letters hgrows ?_ fun k m' hm' => ?_
    · rw [hdigests, Ne, Option.map_eq_none_iff]
      exact h.listed
    · by_cases hk : k = m.digest
      · subst hk
        rw [hblank h.listed] at hm'
        cases hm'
      · rwa [hletters k hk] at hm'

/-- A batch whose records are new or held, with its message. -/
theorem Deliverable.committed (h : c.Deliverable) {message : Option Message} {rs : List Record}
    {ws : List StoreWrite} (hd : c.deposited? message = some d) (hnew : c.NewTo rs)
    (hvouched : ∀ w ∈ ws, w.record ∈ rs ∨ c.records w.record.id = some w.record)
    (houtbox : ∀ w ∈ ws, w.record.id ≠ Record.outbox.id)
    (hmessage : ∀ m, message = some m → m.writes = ws) :
    ((d.withRecords rs).withWrites ws).Deliverable := by
  have hagrees := agreesOff_deposited hd
  have hsame : d.SameOutbox ((d.withRecords rs).withWrites ws) := by
    rw [SameOutbox, values_withWrites_of_ne _ houtbox, values_withRecords]
  have hnew' : d.NewTo rs :=
    ⟨hnew.distinct, fun r hr => by rw [hagrees.records]; exact hnew.absent r hr⟩
  have hgrows : c.Grows ((d.withRecords rs).withWrites ws) := by
    intro id r hr
    rw [records_withWrites]
    exact hnew'.grows id r (hagrees.records ▸ hr)
  have hheld : ∀ w ∈ ws, ((d.withRecords rs).withWrites ws).records w.record.id =
      some w.record := by
    intro w hw
    -- staged records are committed with the batch, the others were held
    rcases hvouched w hw with hr | hr
    · rw [records_withWrites, records_withRecords_of_mem hnew.distinct hr]
    · exact hgrows _ _ hr
  cases message with
  | none =>
    cases hd
    exact h.grow hsame hgrows
  | some m =>
    obtain ⟨ds, hds, rfl⟩ := Option.map_eq_some_iff.mp hd
    refine ⟨?_, fun k m' hm' w hw => ?_⟩
    · rw [hsame.digests?_eq, c.digests?_pushed hds]
      exact Option.some_ne_none _
    · rw [hsame.letter?_eq, letter?_pushed, Message.decode?_encode] at hm'
      split at hm'
      · cases hm'
        exact hheld w (hmessage m rfl ▸ hw)
      · exact hgrows _ _ (h.held k m' hm' w hw)

end Contents

/-! ## Runs -/

namespace Session

variable {σ τ α : Type} {e : Engine σ τ} {C : e.backend.Contract}

/-- What waits in a session's outbox can be delivered. -/
def Deliverable (C : e.backend.Contract) (s : Session σ τ) : Prop :=
  (C.see s.engine.storage).Deliverable

/-- A call on a draft that leaves deliverable contents. -/
theorem Deliverable.onDraft {s : Session σ τ} (h : Deliverable C s) {n : Nat}
    {m : Step (Draft.Execution σ τ) α}
    (hm : ∀ draft ∈ s.drafts, (C.see (m.after ⟨s.engine, draft⟩).engine.storage).Deliverable) :
    Deliverable C (onDraft n m s) := by
  unfold Session.onDraft
  cases hn : s.drafts[n]? with
  | none => exact h
  | some draft => exact hm draft (List.mem_of_getElem? hn)

variable (hC : C.Reliable) (hkeeps : e.keepsOutbox = true)
include hC hkeeps

/-- **A finalization keeps the outbox deliverable**, whether or not it succeeds. -/
theorem finalize_deliverable {s : Session σ τ} (h : Deliverable C s)
    (hs : Sound C s) {draft : Draft} (hdraft : draft ∈ s.drafts) :
    (C.see ((Draft.finalize e).after ⟨s.engine, draft⟩).engine.storage).Deliverable := by
  have hsound := hs.drafts draft hdraft
  obtain ⟨d, hgrows, hd⟩ := finalize_grows (C.see s.engine.storage) (x := ⟨s.engine, draft⟩)
    ⟨hs.holds, hsound⟩
  obtain ⟨-, rfl⟩ := hd.1
  cases hfinal : draft.finalized with
  | true =>
    rw [Step.after, Draft.finalize_of_finalized (x := ⟨s.engine, draft⟩) hfinal]
    exact h
  | false =>
    have hengine := Draft.engine_finalize_of_open (e := e) (x := ⟨s.engine, draft⟩) hfinal
    have hgrows : (C.see s.engine.storage).Grows
        (C.see ((e.finalize draft.tx draft.records.values draft.writes).after s.engine).storage) :=
      hengine ▸ hgrows.grows
    rw [hengine]
    have houtbox : ∀ w ∈ draft.writes, w.record.id ≠ Record.outbox.id := fun w hw =>
      (hsound.writes w hw).derived ▸ w.record.derivedId_ne_outbox
    have hfinalize := Engine.finalize_outbox hC.servesOutbox
      (C.see s.engine.storage) hkeeps draft.tx
      draft.records.values (fun w hw => id_ne_mempool_of_sound hsound hw) houtbox
    -- the records that a message names may be missing after a failure, but then it was blanked
    cases hout : (e.finalize draft.tx draft.records.values draft.writes).outcome s.engine with
    | ok _ =>
      obtain ⟨message, hmessage, d, hd, hnew, -, hsee⟩ := hfinalize.ok hs.holds hout
      have hcommitted := h.committed hd hnew (fun w hw => (hsound.writes w hw).present) houtbox ?_
      · exact hsee ▸ hcommitted
      · rintro m rfl
        exact hmessage.writes.2.1
    | error _ =>
      obtain ⟨d, hd, -, rfl⟩ := hfinalize.error hs.holds hout
      rcases hd with ⟨-, hsame⟩ | ⟨message, -, hwithdrawn⟩
      · exact hsame ▸ h
      · exact h.withdrawn hwithdrawn hgrows

omit hC hkeeps in
theorem put_deliverable {c : Contents} (h : c.Deliverable) (hc : c.Genuine) {s : Engine.State σ τ}
    (hs : (Engine.view C.toView).Holds c s) (id : RecordId) (key : String) (value : Bytes) :
    (C.see ((e.store id key value).after s).storage).Deliverable := by
  obtain ⟨d, hd, -, hsee⟩ := put_leaves c hc hs id key value
  have hsee : C.see ((e.store id key value).after s).storage = d := hsee
  rw [hsee]
  rcases hd with rfl | ⟨hheld, rfl⟩
  · exact h
  · obtain ⟨r, hr⟩ := Option.ne_none_iff_exists'.mp hheld
    have houtbox : id ≠ Record.outbox.id := (hc id r hr).2 ▸ r.derivedId_ne_outbox
    refine h.grow ?_ fun _ _ hq => hq
    funext k
    exact c.values_withValue_of_ne value fun he => houtbox (Prod.mk.inj he).1

omit hkeeps in
theorem receive_deliverable {c : Contents} (h : c.Deliverable) {s : Engine.State σ τ}
    (hs : (Engine.view C.toView).Holds c s) (m : Message) :
    (C.see ((e.receive m).after s).storage).Deliverable := by
  have hsee : C.see ((e.receive m).after s).storage = c.ingestAll (e.taken m) :=
    ((Engine.receive_of_reliable hC m c).after hs).2
  rw [hsee]
  refine h.grow ?_ fun id r hr => ?_
  · funext key
    have hnone : StoreWrite.latest? (e.taken m) Record.outbox.id key = none := by
      refine StoreWrite.latest?_eq_none_iff.mpr fun w hw hid => ?_
      obtain ⟨-, _, -, happroved⟩ := Engine.approved_of_taken hw
      exact absurd (happroved.derived.trans hid) w.record.derivedId_ne_outbox
    rw [Contents.values_ingestAll, hnone, Option.none_or]
  · rw [Contents.records_ingestAll, hr, Option.some_or]

theorem act_deliverable {s : Session σ τ} (h : Deliverable C s) (hs : Sound C s) (event : Event) :
    Deliverable C (act e s event) := by
  cases event with
  | finalize n => exact h.onDraft fun draft hdraft => finalize_deliverable hC hkeeps h hs hdraft
  | put id key value => exact put_deliverable h hs.genuine hs.holds id key value
  | receive m => exact receive_deliverable hC h hs.holds m
  | publish =>
    obtain ⟨d, hd, -, hsee⟩ := (Engine.publishNext_ensures hC.servesOutbox _).after hs.holds
    show (C.see (e.publishNext.after s.engine).storage).Deliverable
    rw [show C.see (e.publishNext.after s.engine).storage = d from hsee]
    rcases hd with rfl | ⟨ds, k, hds, rfl⟩
    · exact h
    · exact Contents.Deliverable.acknowledged h hds k
  | _ =>
    rw [Deliverable, see_act hs id]
    exact h

/-- **Every run keeps the outbox deliverable.** -/
theorem run_deliverable {s : Session σ τ} (h : Deliverable C s) (hs : Sound C s)
    (events : List Event) :
    Deliverable C (run e s events) := by
  induction events generalizing s with
  | nil => exact h
  | cons event events ih => exact ih (act_deliverable hC hkeeps h hs event) (act_sound hs event)

theorem Reachable.deliverable {s : Session σ τ} (h : Reachable C s) : Deliverable C s := by
  obtain ⟨storage, topic, events, hvalid, hempty, rfl⟩ := h
  refine run_deliverable hC hkeeps ?_ (sound_initial hvalid (by rw [hempty]; rfl) topic) events
  show (C.see storage).Deliverable
  rw [hempty]
  exact Contents.deliverable_empty

end Session
end SealedStore
