import SealedStore.Proofs.Backend.Index
import SealedStore.Proofs.Replication.Filter
import SealedStore.Proofs.Replication.Published
import SealedStore.Proofs.Sample.Exchange
import SealedStore.Proofs.Transaction.Json

/-! # Replication converges

One node runs drafts of its own, and another one, with keys of its own, takes in every message once
and in the order of the commits.  `Session.convergence` says when it accepts them and what it holds
in the end.  The one check that a message need not pass is that of who may replicate a record, since
the node that publishes does not make it (`Published.judge`).
-/
namespace SealedStore

open Step StoreWrite

namespace Session

variable {σ τ : Type} {e : Engine σ τ} {C : e.backend.Contract}

/-! ## What the other node makes of them -/

section
variable {ρ υ : Type} {b : Engine ρ υ} {s : Session σ τ} {ms : List Message}

/-- **A published message is accepted** by a node with other keys exactly if its author may
replicate every record in it. -/
theorem Published.judge (h : Published C s ms) (ha : Attested b.signer C s)
    (hv : b.signer.Verifies e.signer)
    (hforeign : ∀ account data signature, e.signer.sign account data = .ok signature →
      account ∉ b.signer.addresses) {m : Message} (hm : m ∈ ms) :
    ∃ author, e.signer.sender m.sourceTx = .ok author ∧
      (b.judge m = .ok .accept ↔ ∀ w ∈ m.writes, author ∈ w.record.allowedStores) ∧
      ((∃ err, b.judge m = .error err) ↔ ∃ w ∈ m.writes, author ∉ w.record.allowedStores) := by
  obtain ⟨author, hsender, hsigned⟩ := h.signed m hm
  have hauthor : b.author m = .ok author :=
    Engine.author_ok_iff.mpr ⟨hv.recover _ _ _ hsigned, hv.sender _ _ hsender⟩
  have hown : b.isOwn m author = false := by
    simp [Engine.isOwn, hforeign _ _ _ hsigned]
  have happroved : ∀ w ∈ m.writes, b.Approved author w ↔ author ∈ w.record.allowedStores := by
    intro w hw
    have hmem : w ∈ ms.flatMap (·.writes) := List.mem_flatMap.mpr ⟨m, hm, hw⟩
    rw [Engine.approved_iff]
    refine ⟨fun h => h.2.1, fun hstore => ⟨ha.held _ _ (h.held w hmem), hstore, h.mayWrite w hmem⟩⟩
  refine ⟨author, hsender, ?_, ?_⟩
  · rw [Engine.judge_accept_iff]
    constructor
    · rintro ⟨a, ha, -, hall⟩ w hw
      rw [hauthor] at ha
      cases ha
      exact (happroved w hw).mp (hall w hw)
    · exact fun hall => ⟨author, hauthor, hown, fun w hw => (happroved w hw).mpr (hall w hw)⟩
  · rw [Engine.judge_error_iff]
    constructor
    · rintro (hnone | ⟨a, ha, -, w, hw, hbad⟩)
      · exact absurd hauthor (hnone author)
      · rw [hauthor] at ha
        cases ha
        exact ⟨w, hw, fun hstore => hbad ((happroved w hw).mpr hstore)⟩
    · rintro ⟨w, hw, hbad⟩
      exact .inr ⟨author, hauthor, hown, w, hw, fun h => hbad ((happroved w hw).mp h)⟩

end

/-- What a node holds that takes in all that was published: the records with a value, as they are
held where they come from. -/
theorem Published.records_ingestAll_iff {s : Session σ τ} {ms : List Message} (h : Published C s ms)
    (hs : Sound C s) {id : RecordId} {r : Record} :
    (Contents.empty.ingestAll (ms.flatMap (·.writes))).records id = some r ↔
      (C.see s.engine.storage).records id = some r ∧ (C.see s.engine.storage).HasValue id := by
  have houtbox : ∀ {q}, (C.see s.engine.storage).records id = some q → id ≠ Record.outbox.id := by
    intro q hq
    exact (hs.genuine id q hq).2 ▸ q.derivedId_ne_outbox
  rw [Contents.records_ingestAll, show Contents.empty.records id = none from rfl, Option.none_or,
    Option.map_eq_some_iff]
  constructor
  · rintro ⟨w, hw, rfl⟩
    have hid : w.record.id = id := by simpa using List.find?_some hw
    have hmem := List.mem_of_find?_eq_some hw
    have hheld := h.held w hmem
    rw [hid] at hheld
    refine ⟨hheld, w.key, ?_⟩
    rw [h.values id (houtbox hheld), Ne, latest?_eq_none_iff]
    exact fun hnone => hnone w hmem hid rfl
  · rintro ⟨hr, key, hvalue⟩
    rw [h.values id (houtbox hr), Ne, latest?_eq_none_iff] at hvalue
    push Not at hvalue
    obtain ⟨w, hw, hid, -⟩ := hvalue
    -- the first write under the id may be another one, but its record is the one that is held
    have hsome : ((ms.flatMap (·.writes)).find? fun w => w.record.id = id).isSome := by
      rw [List.find?_isSome]
      exact ⟨w, hw, decide_eq_true hid⟩
    obtain ⟨u, hu⟩ := Option.isSome_iff_exists.mp hsome
    have huid : u.record.id = id := by simpa using List.find?_some hu
    have hheld := h.held u (List.mem_of_find?_eq_some hu)
    rw [huid, hr] at hheld
    exact ⟨u, hu, (Option.some.inj hheld).symm⟩

end Session

/-! ## Convergence -/

namespace Session

variable {σ τ ρ υ : Type} {a : Engine σ τ} {b : Engine ρ υ} {C : a.backend.Contract}
  {D : b.backend.Contract}

/-- What a node holds that accepted messages which were written and read back. -/
theorem holds_accepted (hD : D.Reliable) {ms : List Message}
    (haccept : ∀ m ∈ ms, b.judge m = .ok .accept)
    {c : Contents} {t : Engine.State ρ υ} (ht : (Engine.view D.toView).Holds c t) :
    (Engine.view D.toView).Holds (c.ingestAll (ms.flatMap (·.writes)))
      (b.deliver t (ms.filterMap fun m => Message.decode? m.encode)) := by
  have hread : (ms.filterMap fun m => Message.decode? m.encode) = ms := by
    simp [Message.decode?_encode]
  have htaken : ms.flatMap b.taken = ms.flatMap (·.writes) :=
    List.flatMap_congr fun m hm => Engine.taken_of_accept (haccept m hm)
  rw [hread, ← htaken]
  exact Engine.holds_deliver hD ms ht

/-- **Replication converges.**  One node runs drafts of its own from an empty backend, and every
finalization succeeds.  Another one, without its keys and from an empty backend, receives each
message once, written and read back, in the order of the commits.  It accepts a message exactly if
the sender of its transaction may replicate every record in it, and rejects it as a whole otherwise.
If it accepts them all, it holds the same values outside the outbox, the same copies of just those
records that have a value, and lists these. -/
theorem convergence (hD : D.Reliable) (hv : b.signer.Verifies a.signer)
    (hforeign : ∀ account data signature, a.signer.sign account data = .ok signature →
      account ∉ b.signer.addresses)
    {storage : σ} {topic : τ} (hvalid : C.Valid storage) (hempty : C.see storage = .empty)
    {events : List Event} (hlocal : ∀ event ∈ events, event.IsLocal)
    (hcommit : AllCommit a (initial storage topic) events)
    {t : Engine.State ρ υ} (ht : D.Valid t.storage) (htempty : D.see t.storage = .empty) :
    let ms := committed a (initial storage topic) events
    let u := b.deliver t (ms.filterMap fun m => Message.decode? m.encode)
    let here := C.see (run a (initial storage topic) events).engine.storage
    let there := D.see u.storage
    (∀ m ∈ ms, ∃ author, a.signer.sender m.sourceTx = .ok author ∧
      (b.judge m = .ok .accept ↔ ∀ w ∈ m.writes, author ∈ w.record.allowedStores) ∧
      ((∃ w ∈ m.writes, author ∉ w.record.allowedStores) → ∃ err, ∀ r, b.receive m r =
        (.error err, { r with metrics := r.metrics.add .messagesReceived 1 }))) ∧
    ((∀ m ∈ ms, b.judge m = .ok .accept) →
      (∀ id ≠ Record.outbox.id, there.values id = here.values id) ∧
      (∀ id r, there.records id = some r ↔ here.records id = some r ∧ here.HasValue id) ∧
      ∀ block space, ∃ rs, (b.list block space).outcome u = .ok rs ∧ rs.Nodup ∧ ∀ r, r ∈ rs ↔
        (here.records r.id = some r ∧ here.HasValue r.id) ∧
          (r.version, r.decryptionCondition) = (space, block)) := by
  intro ms u here there
  have hsound := sound_initial (C := C) hvalid (by rw [hempty]; rfl) topic
  obtain ⟨hs, hattested, hpublished⟩ := (published_initial hempty topic).run hv hsound
    (attested_initial hempty topic) hlocal hcommit
  rw [List.nil_append] at hpublished
  refine ⟨fun m hm => ?_, fun haccept => ?_⟩
  · obtain ⟨author, hsender, haccepts, hrejects⟩ := hpublished.judge hattested hv hforeign hm
    refine ⟨author, hsender, haccepts, fun hbad => ?_⟩
    obtain ⟨err, herr⟩ := hrejects.mpr hbad
    exact ⟨err, Engine.receive_of_reject herr⟩
  · obtain ⟨huvalid, husee⟩ : (Engine.view D.toView).Holds
        (Contents.empty.ingestAll (ms.flatMap (·.writes))) u :=
          holds_accepted hD haccept ⟨ht, htempty⟩
    have hthere : there = Contents.empty.ingestAll (ms.flatMap (·.writes)) := husee
    have hindexed : there.Indexed := hthere ▸ Contents.indexed_empty.ingestAll _
    have hrecords : ∀ id r, there.records id = some r ↔ here.records id = some r ∧
        here.HasValue id := by
      intro id r
      rw [hthere]
      exact hpublished.records_ingestAll_iff hs
    refine ⟨fun id hid => ?_, hrecords, fun block space => ?_⟩
    · funext key
      rw [hthere, Contents.values_ingestAll, show here.values id key = _ from
        hpublished.values id hid key]
      exact Option.or_none
    · refine ⟨there.listing block space, ?_, hindexed.nodup_listing block space, fun r => ?_⟩
      · exact hD.list block space u.storage huvalid
      · rw [hindexed.mem_listing_iff, hrecords]

/-- The statement at a run of one value, which the other node takes over. -/
theorem convergence_first_value :
    let events := Sample.staging ++ [.finalize 0]
    let ms := committed Sample.publisher (initial Memory.empty .empty) events
    let u := Sample.subscriber.deliver (.initial .empty .empty)
      (ms.filterMap fun m => Message.decode? m.encode)
    let there := Sample.subscriberContract.see u.storage
    Sample.subscriberContract.Reliable ∧ Sample.subscriber.signer.Verifies Sample.publisher.signer ∧
      Sample.subscriber.signer.addresses = [] ∧ (∀ event ∈ events, event.IsLocal) ∧
      AllCommit Sample.publisher (initial Memory.empty .empty) events ∧ ms = [Sample.firstMessage] ∧
      Sample.subscriber.judge Sample.firstMessage = .ok .accept ∧
      there.values Sample.record.id "k" = some [1] ∧
        there.records Sample.record.id = some Sample.record ∧
      ∃ rs, (Sample.subscriber.list 0 "sample").outcome u = .ok rs ∧ Sample.record ∈ rs := by
  have hreliable : Sample.subscriberContract.Reliable := KeyValue.tableContract.backend_reliable
  have hlocal : ∀ event ∈ Sample.staging ++ [.finalize 0], event.IsLocal := by
    simp [Sample.staging, Event.IsLocal]
  have hconverge := convergence (C := Sample.publisherContract) hreliable Sample.verifies_honest
    (fun _ _ _ _ => List.not_mem_nil)
    (show Sample.publisherContract.Valid Memory.empty from trivial) rfl hlocal
    Sample.allCommit_first (t := .initial .empty .empty) KeyValue.readable_empty
    KeyValue.contents_empty
  dsimp only at hconverge ⊢
  rw [Sample.committed_first] at hconverge ⊢
  have hhere := Sample.see_first
  -- the states stay folded: nothing below looks into them
  generalize Sample.publisherContract.see
    (run Sample.publisher (initial Memory.empty .empty)
      (Sample.staging ++ [.finalize 0])).engine.storage = here at hconverge hhere
  generalize Sample.subscriber.deliver (.initial .empty .empty) ([Sample.firstMessage].filterMap
    fun m => Message.decode? m.encode) = u at hconverge ⊢
  subst hhere
  obtain ⟨hjudge, hconverge⟩ := hconverge
  have haccept : Sample.subscriber.judge Sample.firstMessage = .ok .accept := by
    obtain ⟨author, hauthor, haccepts, -⟩ := hjudge Sample.firstMessage (List.mem_singleton.mpr rfl)
    cases hauthor
    refine haccepts.mpr fun w hw => ?_
    cases List.mem_singleton.mp hw
    exact Sample.allowed_record.2.1 ▸ List.mem_singleton.mpr rfl
  obtain ⟨hvalues, hrecords, hlist⟩ := hconverge fun m hm => List.mem_singleton.mp hm ▸ haccept
  have hheld : Sample.firstContents.records Sample.record.id = some Sample.record ∧
      Sample.firstContents.HasValue Sample.record.id := by
    refine ⟨Sample.records_firstContents, "k", ?_⟩
    rw [Sample.values_firstContents]
    exact Option.some_ne_none _
  refine ⟨hreliable, Sample.verifies_honest, rfl, hlocal, Sample.allCommit_first, rfl, haccept, ?_,
    (hrecords _ _).mpr hheld, ?_⟩
  · rw [hvalues _ Sample.id_record_ne_outbox]
    exact Sample.values_firstContents
  · obtain ⟨rs, hrs, -, hmem⟩ := hlist 0 "sample"
    refine ⟨rs, hrs, (hmem Sample.record).mpr ⟨hheld, ?_⟩⟩
    unfold Sample.record
    rfl

end Session
end SealedStore
