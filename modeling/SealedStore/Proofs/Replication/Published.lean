import SealedStore.Proofs.Authentic

/-! # What a node publishes

A node that executes drafts of its own publishes a message for each that it finalizes.  What a
message must satisfy to be accepted is established on the way to its publication: records are signed
when a draft is given them, callers are checked when values are staged, and the whole is signed when
it is committed.  `Session.Published` says so of all messages of a run, and that their writes are
just what the node holds (`Published.run`).
-/
namespace SealedStore

open Step StoreWrite

/-! ## What a run publishes -/

namespace Session

/-- Whether an event is the node's own: no message arrives, and no value is
stored without a draft. -/
def Event.IsLocal : Event → Prop
  | receive _ => False
  | put .. => False
  | _ => True

variable {σ τ : Type}

/-- Whether an event succeeds, if it is a finalization. -/
def Event.Commits (e : Engine σ τ) (s : Session σ τ) : Event → Prop
  | finalize n => ∀ d, s.drafts[n]? = some d → (Draft.finalize e).outcome ⟨s.engine, d⟩ = .ok ()
  | _ => True

/-- Whether every finalization of a run succeeds. -/
def AllCommit (e : Engine σ τ) : Session σ τ → List Event → Prop
  | _, [] => True
  | s, event :: events => event.Commits e s ∧ AllCommit e (act e s event) events

/-- What an event hands to publication, if it is a finalization. -/
def handed (e : Engine σ τ) (s : Session σ τ) : Event → List Message
  | .finalize n => (act e s (.finalize n)).engine.outgoing.drop s.engine.outgoing.length
  | _ => []

/-- The messages that a run commits, in order. -/
def committed (e : Engine σ τ) : Session σ τ → List Event → List Message
  | _, [] => []
  | s, event :: events => handed e s event ++ committed e (act e s event) events

section
variable (e : Engine σ τ) (s : Session σ τ) (events more : List Event)

theorem allCommit_append : AllCommit e s (events ++ more) ↔
    AllCommit e s events ∧ AllCommit e (run e s events) more := by
  induction events generalizing s with
  | nil => simp only [List.nil_append, AllCommit, run_nil, true_and]
  | cons event events ih => simp only [List.cons_append, AllCommit, run_cons, ih, and_assoc]

theorem committed_append : committed e s (events ++ more) =
    committed e s events ++ committed e (run e s events) more := by
  induction events generalizing s with
  | nil => rfl
  | cons event events ih => simp only [List.cons_append, committed, run_cons, ih, List.append_assoc]

end

variable {e : Engine σ τ} {C : e.backend.Contract}

/-- **A finalization that succeeds** hands over the message of its draft, and leaves all
that the draft staged. -/
theorem finalize_commits {s : Session σ τ} (hs : Sound C s) {n : Nat} {d : Draft}
    (hn : s.drafts[n]? = some d) (hok : (Draft.finalize e).outcome ⟨s.engine, d⟩ = .ok ()) :
    ∃ message, e.Composes d.tx d.writes message ∧ handed e s (.finalize n) = message.toList ∧
      (C.see s.engine.storage).NewTo d.records.values ∧
      Engine.HoldsOff C
        (((C.see s.engine.storage).withRecords d.records.values).withWrites d.writes)
        (act e s (.finalize n)).engine := by
  have hsound := hs.drafts d (List.mem_of_getElem? hn)
  cases hfinal : d.finalized with
  | true =>
    rw [outcome, Draft.finalize_of_finalized (x := ⟨s.engine, d⟩) hfinal] at hok
    cases hok
  | false =>
    have hengine : (act e s (.finalize n)).engine =
        (e.finalize d.tx d.records.values d.writes).after s.engine := by
      rw [← Draft.engine_finalize_of_open (x := ⟨s.engine, d⟩) hfinal]
      simp only [act, onDraft, hn]
    rw [Draft.outcome_finalize_of_open (x := ⟨s.engine, d⟩) hfinal] at hok
    obtain ⟨message, hmessage, -, houtgoing⟩ :=
      (Engine.finalize_hands_over d.tx d.records.values d.writes
        s.engine.topic s.engine.outgoing).ok ⟨rfl, rfl⟩ hok
    obtain ⟨hnew, hholds⟩ := (Engine.finalize_holdsOff C _ d.tx d.records.values
      fun w hw => id_ne_mempool_of_sound hsound hw).ok hs.holds hok
    refine ⟨message, hmessage, ?_, hnew, hengine ▸ hholds⟩
    rw [handed, hengine, houtgoing, List.drop_left]

end Session

/-! ## What is true of published messages -/

/-- Whether a value is held under an id. -/
def Contents.HasValue (c : Contents) (id : RecordId) : Prop := ∃ key, c.values id key ≠ none

namespace Session

variable {σ τ : Type} {e : Engine σ τ} {C : e.backend.Contract}

/-- **The messages that a node published so far**: each is signed by the sender of its transaction,
its records are held as they are written, and the values that are held are those last written. -/
structure Published (C : e.backend.Contract) (s : Session σ τ) (ms : List Message) : Prop where
  signed : ∀ m ∈ ms, ∃ author, e.signer.sender m.sourceTx = .ok author ∧
    e.signer.sign author m.signableBytes = .ok m.signature
  held : ∀ w ∈ ms.flatMap (·.writes), (C.see s.engine.storage).records w.record.id = some w.record
  mayWrite : ∀ w ∈ ms.flatMap (·.writes), w.caller ∈ w.record.allowedPeekers
  values : ∀ id ≠ Record.outbox.id, ∀ key,
    (C.see s.engine.storage).values id key = latest? (ms.flatMap (·.writes)) id key

theorem published_initial {storage : σ} (hempty : C.see storage = .empty) (topic : τ) :
    Published C (initial storage topic) [] := by
  refine ⟨nofun, nofun, nofun, fun id _ key => ?_⟩
  rw [show C.see (initial storage topic).engine.storage = .empty from hempty]
  rfl

theorem Published.of_agreesOff {s t : Session σ τ} {ms : List Message} (h : Published C s ms)
    (ht : Contents.AgreesOff Record.outbox.id (C.see s.engine.storage) (C.see t.engine.storage)) :
    Published C t ms where
  signed := h.signed
  held w hw := by rw [ht.records, h.held w hw]
  mayWrite := h.mayWrite
  values id hid key := by rw [ht.values id hid, h.values id hid]

variable {v : Signer}

/-- One batch more. -/
theorem Published.finalize {s : Session σ τ} {ms : List Message}
    (h : Published C s ms) (hs : Sound C s)
    (ha : Attested v C s) {n : Nat} (hok : Event.Commits e s (.finalize n)) :
    Published C (act e s (.finalize n)) (ms ++ handed e s (.finalize n)) := by
  cases hn : s.drafts[n]? with
  | none =>
    have hact : act e s (.finalize n) = s := by simp only [act, onDraft, hn]
    rw [handed, hact, List.drop_length, List.append_nil]
    exact h
  | some d =>
    have hd := List.mem_of_getElem? hn
    obtain ⟨message, hmessage, hhanded, hnew, c, hc, -, hsee⟩ := finalize_commits hs hn (hok d hn)
    have hsee : C.see (act e s (.finalize n)).engine.storage = c := hsee
    have hwrites : (ms ++ message.toList).flatMap (·.writes) =
        ms.flatMap (·.writes) ++ d.writes := by
      rw [List.flatMap_append, hmessage.flatMap_writes]
    have hrecords :
        c.records = ((C.see s.engine.storage).withRecords d.records.values).records := by
      rw [hc.records, Contents.records_withWrites]
    rw [hhanded]
    refine ⟨fun m hm => ?_, fun w hw => ?_, fun w hw => ?_, fun id hid key => ?_⟩
    · rcases List.mem_append.mp hm with hm | hm
      · exact h.signed m hm
      · rw [Option.mem_toList] at hm
        exact (hm ▸ hmessage).signed
    · rw [hwrites] at hw
      rw [hsee, hrecords]
      rcases List.mem_append.mp hw with hw | hw
      · exact hnew.grows _ _ (h.held w hw)
      · exact (hs.drafts d hd).records_of_written hnew hw
    · rw [hwrites] at hw
      rcases List.mem_append.mp hw with hw | hw
      · exact h.mayWrite w hw
      · exact (ha.drafts d hd).mayWrite w hw
    · rw [hsee, hc.values id hid, Contents.values_withWrites, Contents.values_withRecords,
        h.values id hid, hwrites, latest?_append]

/-- **Every event of the node's own** carries this on. -/
theorem Published.act {s : Session σ τ} {ms : List Message} (h : Published C s ms) (hs : Sound C s)
    (ha : Attested v C s) {event : Event} (hlocal : event.IsLocal) (hok : event.Commits e s) :
    Published C (act e s event) (ms ++ handed e s event) := by
  cases event with
  | finalize n => exact h.finalize hs ha hok
  | publish =>
    obtain ⟨d, hd, -, hsee⟩ :=
      (Engine.publishNext_keeps C _).after (Outbox.HoldsOff.of_holds C _ hs.holds)
    have hsee : C.see (Session.act e s .publish).engine.storage = d := hsee
    simp only [handed, List.append_nil]
    exact h.of_agreesOff (hsee ▸ hd)
  | receive m => exact hlocal.elim
  | put id key value => exact hlocal.elim
  | _ =>
    simp only [handed, List.append_nil]
    refine h.of_agreesOff ?_
    rw [see_act hs id]
    exact .refl ..

/-- **So does every run.** -/
theorem Published.run (hv : v.Verifies e.signer) {s : Session σ τ} {ms : List Message}
    (h : Published C s ms) (hs : Sound C s) (ha : Attested v C s) {events : List Event}
    (hlocal : ∀ event ∈ events, event.IsLocal) (hok : AllCommit e s events) :
    Sound C (run e s events) ∧ Attested v C (run e s events) ∧
      Published C (run e s events) (ms ++ committed e s events) := by
  induction events generalizing s ms with
  | nil =>
    rw [committed, List.append_nil]
    exact ⟨hs, ha, h⟩
  | cons event events ih =>
    have hevent := hlocal event List.mem_cons_self
    have hreceive : ∀ m, event ≠ .receive m := by
      rintro m rfl
      exact hevent
    rw [committed, ← List.append_assoc]
    exact ih (h.act hs ha hevent hok.1) (act_sound hs event) (act_attested hv hs ha hreceive)
      (fun event hevent => hlocal event (List.mem_cons_of_mem _ hevent)) hok.2

end Session
end SealedStore
