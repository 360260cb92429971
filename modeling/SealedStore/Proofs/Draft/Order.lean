import SealedStore.Proofs.Engine.Effect
import SealedStore.Proofs.Overlay
import SealedStore.Proofs.Replication.Deliverable

/-! # The order of staged records

A draft hands its records over in whatever order its table enumerates them, and the commit keeps
them in that order.  Nothing depends on it but the order of lists.  The records of a draft bear
distinct ids (`Draft.Committable`), so they can be kept exactly if none of these ids is taken
(`Contents.NewTo`), and then they are the same records in any order
(`Contents.records_withRecords_perm`).  Where an id is taken the commit stops before any value, at
one record or at another.  Together: `Session.finalize_any_order`.
-/
namespace SealedStore

open Step

/-! ## Records in another order -/

namespace Contents

variable {c : Contents} {rs qs : List Record} (h : qs.Perm rs)
include h

/-- **Records with distinct ids are the same in any order.** -/
theorem records_withRecords_perm (hdistinct : (rs.map (·.id)).Nodup) :
    (c.withRecords qs).records = (c.withRecords rs).records := by
  have hdistinct' : (qs.map (·.id)).Nodup := (h.map _).nodup_iff.mpr hdistinct
  funext id
  by_cases hid : id ∈ rs.map (·.id)
  · obtain ⟨r, hr, rfl⟩ := List.mem_map.mp hid
    rw [records_withRecords_of_mem hdistinct hr, records_withRecords_of_mem hdistinct'
      (h.mem_iff.mpr hr)]
  · have hid' : id ∉ qs.map (·.id) := fun hmem => hid ((h.map _).mem_iff.mp hmem)
    rw [records_withRecords_of_absent hid, records_withRecords_of_absent hid']

/-- Lists name the same ids, the new ones in the order in which they are kept. -/
theorem index_withRecords_perm (space : String) (block : BitVec 64) :
    ((c.withRecords qs).index space block).Perm ((c.withRecords rs).index space block) := by
  rw [index_withRecords, index_withRecords]
  exact ((h.filter _).map _).append_left _

/-- **A batch leaves the same records and values in any order of its records**, and lists that
differ in order alone. -/
theorem batch_perm (hdistinct : (rs.map (·.id)).Nodup) (ws : List StoreWrite) :
    ((c.withRecords qs).withWrites ws).records = ((c.withRecords rs).withWrites ws).records ∧
      ((c.withRecords qs).withWrites ws).values = ((c.withRecords rs).withWrites ws).values ∧
      ∀ block space, (((c.withRecords qs).withWrites ws).listing block space).Perm
        (((c.withRecords rs).withWrites ws).listing block space) := by
  have hrecords : ((c.withRecords qs).withWrites ws).records =
      ((c.withRecords rs).withWrites ws).records := by
    rw [records_withWrites, records_withWrites, records_withRecords_perm h hdistinct]
  refine ⟨hrecords, ?_, fun block space => ?_⟩
  · funext id key
    rw [values_withWrites, values_withWrites, values_withRecords, values_withRecords]
  · rw [listing, listing, hrecords, index_withWrites, index_withWrites]
    exact (index_withRecords_perm h space block).filterMap _

end Contents

/-! ## What a draft hands over -/

/-- Whether a signer that signs something for an account signs anything for it. -/
def Signer.SignsAll (v : Signer) : Prop :=
  ∀ account data signature, v.sign account data = .ok signature →
    ∀ data', ∃ signature', v.sign account data' = .ok signature'

/-- A ring with a key signs anything with it. -/
theorem KeyRing.signsAll (ring : KeyRing) : ring.signer.SignsAll := by
  intro account data signature hsign data'
  simp only [signer, sign] at hsign ⊢
  split at hsign
  · exact ⟨_, rfl⟩
  · cases hsign

namespace Draft

/-- The draft with its records enumerated in this order. -/
def enumerated (d : Draft) (order : List (RecordId × Record)) : Draft :=
  { d with records := ⟨order⟩ }

variable {σ τ : Type} {e : Engine σ τ}

/-- **What a commit needs of a draft**: records with distinct ids, and a sender that can sign as
soon as there is one. -/
structure Committable (e : Engine σ τ) (d : Draft) : Prop where
  keyed : d.Keyed
  distinct : (d.records.values.map (·.id)).Nodup
  signs : d.records.values ≠ [] →
    ∃ author data signature, e.signer.sender d.tx = .ok author ∧
      e.signer.sign author data = .ok signature

theorem committable_of_none {d : Draft} (h : d.records.entries = []) : d.Committable e := by
  have hvalues : d.records.values = [] := by rw [Table.values, h, List.map_nil]
  refine ⟨fun entry hentry => ?_, ?_, fun hne => absurd hvalues hne⟩
  · rw [h] at hentry
    cases hentry
  · rw [hvalues]
    exact List.nodup_nil

/-- A record is prepared by signing it as the sender. -/
theorem signs_of_prepare {r q : Record} {tx : Transaction} (h : e.prepare r tx = .ok q) :
    ∃ author data signature, e.signer.sender tx = .ok author ∧
      e.signer.sign author data = .ok signature := by
  unfold Engine.prepare at h
  obtain ⟨id, -, h⟩ := Check.bind_ok_iff.mp h
  obtain ⟨author, hauthor, h⟩ := Check.bind_ok_iff.mp h
  obtain ⟨signature, hsign, -⟩ := Check.bind_ok_iff.mp h
  exact ⟨author, _, signature, hauthor, hsign⟩

theorem Committable.moves {c : Contents} {d f : Draft} (h : d.Committable e) (hf : d.Moves e c f) :
    f.Committable e := by
  cases hf with
  | rest => exact h
  | @stage r q hq hnone =>
    refine ⟨h.keyed.stage hnone, ?_, fun _ => signs_of_prepare hq⟩
    rw [Table.values_insert_of_absent q hnone, List.map_append]
    refine List.nodup_append.mpr ⟨h.distinct, List.nodup_singleton _, ?_⟩
    rintro id hid _ hq rfl
    cases List.mem_singleton.mp hq
    exact h.keyed.not_mem hnone hid
  | write => exact ⟨h.keyed, h.distinct, h.signs⟩

/-- Where a record is staged, the batch has its message. -/
theorem Committable.composes {d : Draft} (h : d.Committable e) (hsigner : e.signer.SignsAll)
    (hstaged : d.records.values ≠ []) : ∃ message, e.Composes d.tx d.writes message := by
  obtain ⟨author, data, signature, hauthor, hsign⟩ := h.signs hstaged
  by_cases hws : d.writes = []
  · exact ⟨none, author, hauthor, by rw [Engine.compose, hws]; rfl⟩
  · obtain ⟨signature', hsign'⟩ := hsigner author data signature hsign
      (⟨d.tx, d.writes, e.uuid, []⟩ : Message).signableBytes
    exact ⟨_, Engine.composes_of_sign hws hauthor hsign'⟩

end Draft

namespace Session

variable {σ τ : Type} {e : Engine σ τ}

theorem stable_committable : Stable e (fun _ => True) (fun _ => True) (Draft.Committable e) where
  begin _ := Draft.committable_of_none rfl
  emptied _ := Draft.committable_of_none rfl
  moves _ hd hf := hd.moves hf
  committed _ _ _ _ := trivial
  stored _ _ _ _ := trivial
  absorbed _ _ _ := trivial
  mail _ _ := trivial

/-- **Drafts can be committed on every run**, as far as it depends on them. -/
theorem Reachable.committable {C : e.backend.Contract} {s : Session σ τ}
    (h : Reachable C s) {d : Draft}
    (hd : d ∈ s.drafts) : d.Committable e := (stable_committable.reachable trivial h).drafts d hd

end Session

/-! ## A batch in one order -/

namespace Engine

variable {σ τ : Type} {e : Engine σ τ} {C : e.backend.Contract}

/-- A deposit does not fail where the outbox can be read. -/
theorem deposit_of_readable (hC : C.ServesOutbox) {c : Contents}
    (hlisted : e.keepsOutbox = true → c.digests? ≠ none) (message : Option Message) :
    Ensures ((view C.toView).Holds c) (e.deposit message)
      (fun _ s => ∃ d, Contents.AgreesOff Record.outbox.id c d ∧ (view C.toView).Holds d s)
        fun _ _ => False := by
  cases hkeeps : e.keepsOutbox with
  | true =>
    refine (deposit_ensures hC c hkeeps message).mono (fun _ hs => hs) (fun _ s hs => ?_)
      fun _ s hs => ?_
    · obtain ⟨-, d, hd, hs⟩ := hs
      exact ⟨d, Contents.agreesOff_deposited hd, hs⟩
    · cases message with
      | none => cases hs.1
      | some m => exact hlisted hkeeps (Option.map_eq_none_iff.mp hs.1)
  | false =>
    have hnothing : e.deposit message = pure none := by
      cases message with
      | none => rfl
      | some m => simp [deposit, hkeeps]
    rw [hnothing]
    exact .pure fun s hs => ⟨c, .refl .., hs⟩

/-- **How a finalization ends** over a reliable backend, once its message is deposited: all is kept,
or the id of a record is taken, and no value is kept outside the outbox. -/
theorem finalize_cases_of_reliable (hC : C.Reliable) {tx : Transaction} {rs : List Record}
    {ws : List StoreWrite} (hmempool : ∀ w ∈ ws, w.record.id ≠ Record.mempool.id)
    (hdistinct : (rs.map (·.id)).Nodup)
    {message : Option Message} (hmessage : e.Composes tx ws message) {s t : State σ τ}
    {digest : Option (Octets 32)} (hdeposit : e.deposit message s = (.ok digest, t)) {d : Contents}
    (ht : (view C.toView).Holds d t) :
    ((e.finalize tx rs ws).outcome s = .ok () ∧ d.NewTo rs ∧
        (view C.toView).Holds ((d.withRecords rs).withWrites ws) ((e.finalize tx rs ws).after s)) ∨
      ∃ r ∈ rs, d.records r.id ≠ none ∧
        (e.finalize tx rs ws).outcome s = .error (.recordAlreadyPresent r.id) ∧
        ∃ f, (∀ id ≠ Record.outbox.id, f.values id = d.values id) ∧
          (view C.toView).Holds f ((e.finalize tx rs ws).after s) := by
  have hcommit : Ensures _ (e.commit rs ws) _ _ := commit_cases_of_reliable hC d hmempool
  have hends := ends_finalize (e := e) tx rs ws s
  rw [outcome, after]
  generalize e.finalize tx rs ws s = ended, e.applied tx rs ws s = calls at hends
  obtain ⟨author, hauthor, hcompose⟩ := id hmessage
  cases hends with
  | unsigned h =>
    rw [hauthor] at h
    cases h
  | unsignable h h' =>
    cases hauthor.symm.trans h
    rw [hcompose] at h'
    cases h'
  | undeposited h h' =>
    cases hmessage.unique h
    rw [hdeposit] at h'
    cases h'
  | cut h h' hcut =>
    cases hmessage.unique h
    cases hdeposit.symm.trans h'
    obtain ⟨before, r, rest, rfl, -, htaken, rfl, hheld⟩ := hcommit.error ht hcut
    rw [List.map_append, List.nodup_append] at hdistinct
    -- the records that were kept before it have other ids
    rw [Contents.records_withRecords_of_absent fun hmem =>
      hdistinct.2.2 _ hmem r.id List.mem_cons_self rfl] at htaken
    obtain ⟨f, hf, hafter⟩ := (withdraw_keeps C _ digest).after (Outbox.HoldsOff.of_holds C _ hheld)
    refine .inr ⟨r, List.mem_append_right _ List.mem_cons_self, htaken, rfl, f,
      fun id hid => ?_, hafter⟩
    rw [hf.values id hid, Contents.values_withRecords]
  | done h h' hdone hstorage =>
    cases hmessage.unique h
    cases hdeposit.symm.trans h'
    obtain ⟨hnew, hheld⟩ := hcommit.ok ht hdone
    refine .inl ⟨rfl, hnew, ?_⟩
    show C.Holds _ _
    rw [hstorage]
    exact hheld

/-- A batch without a message is refused before anything is done. -/
theorem refused_of_uncomposed {tx : Transaction} {ws : List StoreWrite} (s : State σ τ)
    (h : ¬ ∃ message, e.Composes tx ws message) :
    ∃ err, ∀ rs, e.finalize tx rs ws s = (.error err, s) := by
  cases hauthor : e.signer.sender tx with
  | error err => exact ⟨_, fun rs => (finalize_of_unsigned hauthor rs ws s).2⟩
  | ok author =>
    cases hcompose : e.compose tx author ws with
    | ok message => exact absurd ⟨message, author, hauthor, hcompose⟩ h
    | error err => exact ⟨err, fun rs => (finalize_of_uncomposed hauthor hcompose rs s).2⟩

end Engine

/-! ## A draft in any order -/

namespace Draft

variable {σ τ : Type} {e : Engine σ τ}

/-- A draft that is open is finalized by its batch, with its records in the order of its table. -/
theorem finalize_enumerated (s : Engine.State σ τ) {d : Draft} (hopen : d.finalized = false)
    (order : List (RecordId × Record)) :
    (finalize e ⟨s, d.enumerated order⟩) =
      ((e.finalize d.tx (order.map (·.2)) d.writes).outcome s,
        ⟨(e.finalize d.tx (order.map (·.2)) d.writes).after s, d.emptied⟩) :=
  finalize_of_open (x := ⟨s, d.enumerated order⟩) hopen

end Draft

namespace Session

variable {σ τ : Type} {e : Engine σ τ} {C : e.backend.Contract}

/-- **How the finalization of a draft ends in any order**, once its batch is signed:
with the whole batch kept beside the deposit, which is the same for all orders, or at a
record whose id is taken. -/
theorem enumerated_cases (hC : C.Reliable) {s : Session σ τ} (hs : s.Reachable C) {d : Draft}
    (hd : d ∈ s.drafts) (hopen : d.finalized = false) {message : Option Message}
    (hmessage : e.Composes d.tx d.writes message) :
    ∃ b, Contents.AgreesOff Record.outbox.id (C.see s.engine.storage) b ∧
      ∀ order, order.Perm d.records.entries →
        let ended := Draft.finalize e ⟨s.engine, d.enumerated order⟩
        (ended.1 = .ok () ∧ (∀ r ∈ d.records.values, (C.see s.engine.storage).records r.id = none) ∧
            C.Holds ((b.withRecords (order.map (·.2))).withWrites d.writes)
            ended.2.engine.storage) ∨
          ∃ r ∈ d.records.values, (C.see s.engine.storage).records r.id ≠ none ∧
            ended.1 = .error (.recordAlreadyPresent r.id) ∧
            ∃ f, (∀ id ≠ Record.outbox.id, f.values id = (C.see s.engine.storage).values id) ∧
              C.Holds f ended.2.engine.storage := by
  have hlisted (hkeeps : e.keepsOutbox = true) : (C.see s.engine.storage).digests? ≠ none :=
    (hs.deliverable hC hkeeps).listed
  obtain ⟨digest, hdeposit, b, hb, ht⟩ :=
    (Engine.deposit_of_readable hC.servesOutbox hlisted message).exists_ok hs.sound.holds
  refine ⟨b, hb, fun order horder => ?_⟩
  have hvalues : (order.map (·.2)).Perm d.records.values := horder.map _
  have hdistinct : ((order.map (·.2)).map (·.id)).Nodup :=
    (hvalues.map _).nodup_iff.mpr (hs.committable hd).distinct
  rw [Draft.finalize_enumerated s.engine hopen]
  rcases Engine.finalize_cases_of_reliable hC
      (fun w hw => id_ne_mempool_of_sound (hs.sound.drafts d hd) hw)
      hdistinct hmessage (Prod.ext hdeposit rfl) ht with
    ⟨hok, hnew, hheld⟩ | ⟨r, hr, htaken, herr, f, hf, hheld⟩
  · exact .inl ⟨hok, fun r hr => hb.records ▸ hnew.absent r (hvalues.mem_iff.mpr hr), hheld⟩
  · refine .inr ⟨r, hvalues.mem_iff.mp hr, hb.records ▸ htaken, herr, f, fun id hid => ?_, hheld⟩
    exact (hf id hid).trans (hb.values id hid)

/-- A draft that was finalized, and a batch that cannot be signed, are refused
before anything is done. -/
theorem enumerated_of_refused (s : Session σ τ) {d : Draft}
    (h : ¬ (d.finalized = false ∧ ∃ message, e.Composes d.tx d.writes message)) :
    ∃ err, ∀ order, let ended := Draft.finalize e ⟨s.engine, d.enumerated order⟩
      ended.1 = .error err ∧ ended.2.engine = s.engine := by
  cases hopen : d.finalized with
  | true =>
    refine ⟨.alreadyFinalized, fun order => ?_⟩
    rw [Draft.finalize_of_finalized (x := ⟨s.engine, d.enumerated order⟩) hopen]
    exact ⟨rfl, rfl⟩
  | false =>
    obtain ⟨err, hrefused⟩ := Engine.refused_of_uncomposed s.engine
      fun hmessage => h ⟨hopen, hmessage⟩
    refine ⟨err, fun order => ?_⟩
    rw [Draft.finalize_enumerated s.engine hopen, outcome, after, hrefused]
    exact ⟨rfl, rfl⟩

/-- A draft that is committed was open and hands over the message of its batch, one that is not
hands over nothing. -/
theorem enumerated_hands_over (s : Session σ τ) (d : Draft) (order : List (RecordId × Record)) :
    let ended := Draft.finalize e ⟨s.engine, d.enumerated order⟩
    (ended.1 = .ok () → d.finalized = false ∧ ∃ message, e.Composes d.tx d.writes message ∧
        ended.2.engine.outgoing = s.engine.outgoing ++ message.toList) ∧
      ∀ err, ended.1 = .error err → ended.2.engine.outgoing = s.engine.outgoing := by
  cases hopen : d.finalized with
  | true =>
    rw [Draft.finalize_of_finalized (x := ⟨s.engine, d.enumerated order⟩) hopen]
    refine ⟨fun hok => ?_, fun _ _ => rfl⟩
    cases hok
  | false =>
    have hhands :=
      Engine.finalize_hands_over (e := e) d.tx (order.map (·.2)) d.writes
        s.engine.topic s.engine.outgoing
    rw [Draft.finalize_enumerated s.engine hopen]
    refine ⟨fun hok => ?_, fun err herr => (hhands.error ⟨rfl, rfl⟩ herr).2⟩
    obtain ⟨message, hmessage, -, hout⟩ := hhands.ok ⟨rfl, rfl⟩ hok
    exact ⟨rfl, message, hmessage, hout⟩

section
variable (hC : C.Reliable) {s : Session σ τ} (hs : s.Reachable C) {d : Draft} (hd : d ∈ s.drafts)
  {order other : List (RecordId × Record)} (horder : order.Perm d.records.entries)
include hC hs hd horder

/-- A batch is committed just if it can be signed and all that is staged is new. -/
theorem enumerated_ok_iff :
    (Draft.finalize e ⟨s.engine, d.enumerated order⟩).1 = .ok () ↔
      (d.finalized = false ∧ ∃ message, e.Composes d.tx d.writes message) ∧
        ∀ r, ¬ (r ∈ d.records.values ∧ (C.see s.engine.storage).records r.id ≠ none) := by
  constructor
  · intro hok
    obtain ⟨hopen, message, hmessage, -⟩ := (enumerated_hands_over s d order).1 hok
    refine ⟨⟨hopen, message, hmessage⟩, fun r hr => ?_⟩
    obtain ⟨b, -, hends⟩ := enumerated_cases hC hs hd hopen hmessage
    rcases hends order horder with ⟨-, hnew, -⟩ | ⟨_, -, -, herr, -⟩
    · exact hr.2 (hnew r hr.1)
    · cases hok.symm.trans herr
  · rintro ⟨⟨hopen, message, hmessage⟩, hnone⟩
    obtain ⟨b, -, hends⟩ := enumerated_cases hC hs hd hopen hmessage
    rcases hends order horder with ⟨hok, -⟩ | ⟨r, hr, htaken, -⟩
    · exact hok
    · exact absurd ⟨hr, htaken⟩ (hnone r)

/-- Where a staged id is taken, the error names such an id, and values outside the outbox are as
before, as is what is handed over. -/
theorem enumerated_of_taken
    (hready : d.finalized = false ∧ ∃ message, e.Composes d.tx d.writes message)
    (htaken : ∃ r, r ∈ d.records.values ∧ (C.see s.engine.storage).records r.id ≠ none) :
    let ended := Draft.finalize e ⟨s.engine, d.enumerated order⟩
    (∃ r, (r ∈ d.records.values ∧ (C.see s.engine.storage).records r.id ≠ none) ∧
        ended.1 = .error (.recordAlreadyPresent r.id)) ∧
      ended.2.engine.outgoing = s.engine.outgoing ∧
      ∀ id ≠ Record.outbox.id,
        (C.see ended.2.engine.storage).values id = (C.see s.engine.storage).values id := by
  obtain ⟨hopen, message, hmessage⟩ := hready
  obtain ⟨q, hq, hqtaken⟩ := htaken
  obtain ⟨b, -, hends⟩ := enumerated_cases hC hs hd hopen hmessage
  rcases hends order horder with ⟨-, hnew, -⟩ | ⟨r, hr, htaken, herr, f, hf, hheld⟩
  · exact absurd (hnew q hq) hqtaken
  · exact ⟨⟨r, ⟨hr, htaken⟩, herr⟩, (enumerated_hands_over s d order).2 _ herr,
      fun id hid => hheld.2 ▸ hf id hid⟩

/-- **Two orders agree on what is committed.** -/
theorem enumerated_agree (hother : other.Perm d.records.entries)
    (hok : (Draft.finalize e ⟨s.engine, d.enumerated order⟩).1 = .ok ()) :
    let t := (Draft.finalize e ⟨s.engine, d.enumerated order⟩).2.engine
    let u := (Draft.finalize e ⟨s.engine, d.enumerated other⟩).2.engine
    (C.see u.storage).records = (C.see t.storage).records ∧
      (C.see u.storage).values = (C.see t.storage).values ∧
      (∃ message, e.Composes d.tx d.writes message ∧
        t.outgoing = s.engine.outgoing ++ message.toList ∧ u.outgoing = t.outgoing) ∧
      ∀ block space, ∃ l m, (e.list block space).outcome t = .ok l ∧
        (e.list block space).outcome u = .ok m ∧ m.Perm l := by
  intro t u
  obtain ⟨hopen, message, hmessage, hout⟩ := (enumerated_hands_over s d order).1 hok
  have hok' : (Draft.finalize e ⟨s.engine, d.enumerated other⟩).1 = .ok () :=
    (enumerated_ok_iff hC hs hd hother).mpr ((enumerated_ok_iff hC hs hd horder).mp hok)
  obtain ⟨b, -, hends⟩ := enumerated_cases hC hs hd hopen hmessage
  -- an order that does not fail keeps the whole batch
  have hkept {o : List (RecordId × Record)} (ho : o.Perm d.records.entries)
      (hok : (Draft.finalize e ⟨s.engine, d.enumerated o⟩).1 = .ok ()) :
      C.Holds ((b.withRecords (o.map (·.2))).withWrites d.writes)
        (Draft.finalize e ⟨s.engine, d.enumerated o⟩).2.engine.storage := by
    rcases hends o ho with ⟨-, -, hheld⟩ | ⟨_, -, -, herr, -⟩
    · exact hheld
    · cases hok.symm.trans herr
  have ht : C.Holds _ t.storage := hkept horder hok
  have hu : C.Holds _ u.storage := hkept hother hok'
  have hvalues : (order.map (·.2)).Perm d.records.values := horder.map _
  obtain ⟨hrecords, hvals, hlistings⟩ :=
    Contents.batch_perm (c := b) ((hother.trans horder.symm).map (·.2))
    ((hvalues.map _).nodup_iff.mpr (hs.committable hd).distinct) d.writes
  have hlist {v : Engine.State σ τ} {f : Contents} (hv : C.Holds f v.storage) (block : BitVec 64)
      (space : String) :
      (e.list block space).outcome v = .ok (f.listing block space) :=
    (hC.list block space v.storage hv.1).trans (by rw [hv.2]; rfl)
  refine ⟨by rw [ht.2, hu.2, hrecords], by rw [ht.2, hu.2, hvals], ⟨message, hmessage, hout, ?_⟩,
    fun block space => ⟨_, _, hlist ht block space, hlist hu block space, hlistings block space⟩⟩
  obtain ⟨-, message', hmessage', hout'⟩ := (enumerated_hands_over s d other).1 hok'
  rw [hmessage.unique hmessage'] at hout
  exact hout'.trans hout.symm

end

/-- **The order in which a draft hands over its records does not matter**, on any run over a
reliable backend.  The batch is committed in every order or in none: just if the draft is open, the
batch can be signed, as it can wherever a record is staged, and no staged id is taken.  Then the
same records and values are held and the same message is handed over, and only the order of lists
differs.  If an id is taken, the error names such an id, no value outside the outbox changes and
nothing is handed over.  A draft that was finalized and a batch that cannot be signed are refused
with one error in all orders, and the engine stays as it is. -/
theorem finalize_any_order (hC : C.Reliable) (hsigner : e.signer.SignsAll) {s : Session σ τ}
    (hs : s.Reachable C) {d : Draft} (hd : d ∈ s.drafts) :
    let c := C.see s.engine.storage
    let run (order : List (RecordId × Record)) := Draft.finalize e ⟨s.engine, d.enumerated order⟩
    let Ready := d.finalized = false ∧ ∃ message, e.Composes d.tx d.writes message
    let Taken (r : Record) := r ∈ d.records.values ∧ c.records r.id ≠ none
    (d.finalized = false → d.records.values ≠ [] → Ready) ∧
      (∀ order, order.Perm d.records.entries → ((run order).1 = .ok () ↔ Ready ∧ ∀ r, ¬ Taken r)) ∧
      (∀ order other, order.Perm d.records.entries → other.Perm d.records.entries →
        (run order).1 = .ok () →
        let t := (run order).2.engine
        let u := (run other).2.engine
        (C.see u.storage).records = (C.see t.storage).records ∧
          (C.see u.storage).values = (C.see t.storage).values ∧
          (∃ message, e.Composes d.tx d.writes message ∧
            t.outgoing = s.engine.outgoing ++ message.toList ∧ u.outgoing = t.outgoing) ∧
          ∀ block space, ∃ l m, (e.list block space).outcome t = .ok l ∧
            (e.list block space).outcome u = .ok m ∧ m.Perm l) ∧
      (∀ order, order.Perm d.records.entries → Ready → (∃ r, Taken r) →
        let t := (run order).2.engine
        (∃ r, Taken r ∧ (run order).1 = .error (.recordAlreadyPresent r.id)) ∧
          t.outgoing = s.engine.outgoing ∧
          ∀ id ≠ Record.outbox.id, (C.see t.storage).values id = c.values id) ∧
      (¬ Ready → ∃ err, ∀ order, (run order).1 = .error err ∧ (run order).2.engine = s.engine) := by
  intro c run Ready Taken
  exact ⟨fun hopen hstaged => ⟨hopen, (hs.committable hd).composes hsigner hstaged⟩,
    fun order horder => enumerated_ok_iff hC hs hd horder,
    fun order other horder hother hok => enumerated_agree hC hs hd horder hother hok,
    fun order horder hready htaken => enumerated_of_taken hC hs hd horder hready htaken,
    enumerated_of_refused s⟩

/-- The statement at a draft of two records, handed over from either end. -/
theorem finalize_any_order_reversed :
    let e := Sample.engine Octets.zero true
    let C := Sample.contract Topic.ofHub Octets.zero true
    let s := Session.run e (initial Memory.empty .empty)
      [.begin Sample.tx, .init 0 Sample.bareRecord,
        .init 0 { Sample.bareRecord with salt := Octets.replicate 16 1 }]
    C.Reliable ∧ e.signer.SignsAll ∧ s.Reachable C ∧ ∃ d ∈ s.drafts, d.finalized = false ∧
      d.records.values.length = 2 ∧
      let run (order : List (RecordId × Record)) := Draft.finalize e ⟨s.engine, d.enumerated order⟩
      (run d.records.entries).1 = .ok () ∧ (run d.records.entries.reverse).1 = .ok () ∧
        (C.see (run d.records.entries.reverse).2.engine.storage).records =
          (C.see (run d.records.entries).2.engine.storage).records := by
  intro e C s
  have hC : C.Reliable := Sample.contract_reliable ..
  have hsigner : e.signer.SignsAll := fun _ _ _ _ _ => ⟨[], rfl⟩
  have hreachable : s.Reachable C := ⟨Memory.empty, .empty, _, trivial, Sample.see_empty .., rfl⟩
  have hstaged : s.engine.storage = Memory.empty ∧
      s.drafts.map (fun d => (d.finalized, d.records.values.length)) =
        [(false, 2)] := by decide +kernel
  clear_value s
  obtain ⟨hempty, hstaged⟩ := hstaged
  obtain ⟨d, hdrafts, hd⟩ := List.map_eq_singleton_iff.mp hstaged
  obtain ⟨hopen, htwo⟩ := Prod.mk.inj hd
  have hmem : d ∈ s.drafts := hdrafts ▸ List.mem_singleton.mpr rfl
  obtain ⟨hready, hcommits, hsame, -, -⟩ := finalize_any_order hC hsigner hreachable hmem
  have hnone : ∀ r, ¬ (r ∈ d.records.values ∧ (C.see s.engine.storage).records r.id ≠ none) := by
    rintro r ⟨-, hr⟩
    rw [hempty] at hr
    exact hr rfl
  have hne : d.records.values ≠ [] := fun h => by simp [h] at htwo
  have hforward := (hcommits _ (.refl _)).mpr ⟨hready hopen hne, hnone⟩
  exact ⟨hC, hsigner, hreachable, d, hmem, hopen, htwo, hforward,
    (hcommits _ (List.reverse_perm _)).mpr ⟨hready hopen hne, hnone⟩,
    (hsame _ _ (.refl _) (List.reverse_perm _) hforward).1⟩

/-- **A draft of an unsigned transaction is refused though nothing stands against its
records**: it has none. -/
theorem unsigned_draft_refused :
    let e : Engine Memory (Hub Message) :=
      { Sample.engine Octets.zero true with signer := (KeyRing.ofKeys []).signer }
    let C : e.backend.Contract := Memory.contract
    let s := Session.run e (initial Memory.empty .empty) [.begin Sample.tx]
    let d := Draft.begin Sample.tx
    s.Reachable C ∧ d ∈ s.drafts ∧ d.finalized = false ∧
      (∀ r ∈ d.records.values, (C.see s.engine.storage).records r.id = none) ∧
      (Draft.finalize e).outcome ⟨s.engine, d⟩ = .error .unsignedFinalize := by
  intro e C s d
  have hsender : e.signer.sender Sample.tx =
      .error (.unsignedTransaction "Failed to recover the signer") := by
    decide +kernel
  have hrefused := (Engine.finalize_of_unsigned hsender [] [] s.engine).2
  refine ⟨⟨Memory.empty, .empty, _, trivial, rfl, rfl⟩, List.mem_singleton.mpr rfl, rfl,
    List.forall_mem_nil _, ?_⟩
  rw [Draft.outcome_finalize_of_open (x := ⟨s.engine, d⟩) rfl]
  exact congrArg Prod.fst hrefused

end Session
end SealedStore
