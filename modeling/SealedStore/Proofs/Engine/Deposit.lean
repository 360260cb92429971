import SealedStore.Proofs.Engine.Commit

/-! # What a batch leaves in the outbox

Where the outbox's own calls do not fail, a finalization that succeeds leaves its message in the
outbox and all of its records and writes (`finalize_outbox`); one that fails takes its message out
again, and with it whatever was under the same digest before.  A publication takes its message off
where the topic accepts it (`publishNext_of_accepted`) and leaves it where the topic refuses it
(`publishNext_of_refused`).  Over a reliable backend a batch with new records does not fail
(`finalize_of_reliable`).
-/
namespace SealedStore

open Step

namespace Engine

variable {σ τ : Type} {e : Engine σ τ}

section
variable {C : e.backend.Contract} (hC : C.ServesOutbox) (c : Contents)
include hC

/-! ## The message put in and taken out -/

/-- **A deposit** fails only where the listed digests cannot be read. -/
theorem deposit_ensures (hkeeps : e.keepsOutbox = true) (message : Option Message) :
    Ensures ((view C.toView).Holds c) (e.deposit message)
      (fun digest s => digest = message.map Message.digest ∧
        ∃ d, c.deposited? message = some d ∧ (view C.toView).Holds d s)
      fun _ s => c.deposited? message = none ∧
        ∃ d, c.Withdrawn message d ∧ (view C.toView).Holds d s := by
  unfold deposit
  cases message with
  | none => exact .pure fun s hs => ⟨rfl, c, rfl, hs⟩
  | some m =>
    show Ensures _ (if e.keepsOutbox then _ else _) _ _
    rw [if_pos hkeeps]
    refine .bind (Q := fun digest s => digest = m.digest ∧
      ∃ d, c.deposited? (some m) = some d ∧ (view C.toView).Holds d s) ?_
      fun digest => .pure fun s hs => ?_
    · refine (onStorage_ensures (Outbox.push_ensures hC c m)).mono (fun _ hs => hs)
        (fun _ s hs => ?_) fun _ s hs => ?_
      · obtain ⟨hdigest, ds, hds, hs⟩ := hs
        exact ⟨hdigest, _, by rw [Contents.deposited?, hds, Option.map_some], hs⟩
      · exact ⟨by rw [Contents.deposited?, hs.1, Option.map_none], _,
          Contents.withdrawn_of_unreadable hs.1, hs.2⟩
    · exact ⟨congrArg some hs.1, hs.2⟩

/-- **A withdrawal** of what was deposited. -/
theorem withdraw_ensures {message : Option Message} {d f : Contents}
    (hd : c.deposited? message = some d) (hf : d.SameOutbox f) {E : StoreError → State σ τ → Prop} :
    Ensures ((view C.toView).Holds f) (e.withdraw (message.map Message.digest))
      (fun _ s => ∃ g, c.Withdrawn message g ∧ (view C.toView).Holds g s) E := by
  rcases Contents.withdrawn_of_deposited hd hf with
    ⟨rfl, hwithdrawn⟩ | ⟨m, ks, rfl, hks, hwithdrawn⟩
  · exact .pure fun s hs => ⟨f, hwithdrawn, hs⟩
  · refine .ignore ?_
    refine (onStorage_ensures (Outbox.acknowledge_ensures hC f m.digest)).mono (fun _ hs => hs)
      (fun _ s hs => ?_) fun _ s hs => ?_
    · obtain ⟨ks', hks', hs⟩ := hs
      cases hks.symm.trans hks'
      exact ⟨_, hwithdrawn, hs⟩
    · rw [hks] at hs
      cases hs.1

/-! ## The finalization -/

/-- **A finalization and the outbox.**  One that succeeds leaves its message, its records
and its writes; one that fails leaves the outbox as it was, save for what was under the
digest of its message. -/
theorem finalize_outbox (hkeeps : e.keepsOutbox = true) (tx : Transaction) (rs : List Record)
    {ws : List StoreWrite} (hmempool : ∀ w ∈ ws, w.record.id ≠ Record.mempool.id)
    (houtbox : ∀ w ∈ ws, w.record.id ≠ Record.outbox.id) :
    Ensures ((view C.toView).Holds c) (e.finalize tx rs ws)
      (fun _ s => ∃ message, e.Composes tx ws message ∧
        ∃ d, c.deposited? message = some d ∧ c.NewTo rs ∧
        (view C.toView).Holds ((d.withRecords rs).withWrites ws) s)
      fun _ s => ∃ d, ((∀ message, ¬ e.Composes tx ws message) ∧ d = c ∨
        ∃ message, e.Composes tx ws message ∧ c.Withdrawn message d) ∧
          (view C.toView).Holds d s := by
  refine finalize_ensures
    (S := fun message s => ∃ d, c.deposited? message = some d ∧ c.NewTo rs ∧
      (view C.toView).Holds ((d.withRecords rs).withWrites ws) s)
    (D := fun message digest s => digest = message.map Message.digest ∧
      ∃ d, c.deposited? message = some d ∧ (view C.toView).Holds d s)
    (K := fun message _ s => ∃ d, c.deposited? message = some d ∧ c.NewTo rs ∧
      (view C.toView).Holds ((d.withRecords rs).withWrites ws) s)
    (A := fun message digest s => digest = message.map Message.digest ∧
      ∃ d, c.deposited? message = some d ∧ ∃ f, d.SameOutbox f ∧ (view C.toView).Holds f s)
    ?_ ?_ ?_ ?_ fun _ _ _ _ hs => hs
  · exact fun s hnone hs => ⟨c, .inl ⟨hnone, rfl⟩, hs⟩
  · intro message hmessage
    refine (deposit_ensures hC c hkeeps message).mono (fun _ hs => hs) (fun _ _ hs => hs)
      fun _ s hs => ?_
    obtain ⟨-, d, hd, hs⟩ := hs
    exact ⟨d, .inr ⟨message, hmessage, hd⟩, hs⟩
  · intro message digest
    -- a commit that fails leaves the outbox as the deposit left it, since no write goes there
    refine .of_fact fun hdigest => .of_exists fun d => .of_fact fun hd => ?_
    refine (commit_ensures C d hmempool).mono (fun _ hs => hs) (fun _ s hs => ?_) fun _ s hs => ?_
    · exact ⟨d, hd, hs.1.of_agreesOff (Contents.agreesOff_deposited hd), hs.2⟩
    · obtain ⟨f, hf, hs⟩ := hs
      exact ⟨hdigest, d, hd, f, hf.values_of_ne houtbox, hs⟩
  · intro message digest hmessage
    refine .of_fact fun hdigest => .of_exists fun d => .of_fact fun hd => .of_exists fun f =>
      .of_fact fun hf => ?_
    subst hdigest
    have hwithdraw : Ensures ((view C.toView).Holds f) (e.withdraw (message.map Message.digest))
        (fun _ s => ∃ g, c.Withdrawn message g ∧ (view C.toView).Holds g s)
        fun _ s => ∃ g, c.Withdrawn message g ∧ (view C.toView).Holds g s :=
          withdraw_ensures hC c hd hf
    refine hwithdraw.mono (fun _ hs => hs) (fun _ s hs => ?_) fun _ s hs => ?_
    · obtain ⟨g, hg, hs⟩ := hs
      exact ⟨g, .inr ⟨message, hmessage, hg⟩, hs⟩
    · obtain ⟨g, hg, hs⟩ := hs
      exact ⟨g, .inr ⟨message, hmessage, hg⟩, hs⟩

/-! ## The publication -/

/-- A publication leaves the contents, or takes one digest off. -/
theorem publish_ensures (m : Message) {E : StoreError → State σ τ → Prop} :
    Ensures ((view C.toView).Holds c) (e.publish m)
      (fun _ s => ∃ d, (d = c ∨ ∃ ds, c.digests? = some ds ∧ d = c.acknowledged ds m.digest) ∧
        (view C.toView).Holds d s) E := by
  refine .bind (Q := fun _ => (view C.toView).Holds c)
    (.attempt (onTopic_keeps (fun _ _ hs => hs) _)) fun published => ?_
  cases published with
  | error _ => exact fun s hs => ⟨c, .inl rfl, hs⟩
  | ok _ =>
    refine .bind (count_ensures _) fun _ => ?_
    show Ensures _ (if e.keepsOutbox then _ else _) _ _
    split
    · refine .ignore ?_
      refine (onStorage_ensures (Outbox.acknowledge_ensures hC c m.digest)).mono (fun _ hs => hs)
        (fun _ s hs => ?_) fun _ s hs => ?_
      · obtain ⟨ds, hds, hs⟩ := hs
        exact ⟨_, .inr ⟨ds, hds, rfl⟩, hs⟩
      · exact ⟨c, .inl rfl, hs.2⟩
    · exact .pure fun s hs => ⟨c, .inl rfl, hs⟩

theorem publishNext_ensures {E : StoreError → State σ τ → Prop} :
    Ensures ((view C.toView).Holds c) e.publishNext
      (fun _ s => ∃ d, (d = c ∨ ∃ ds k, c.digests? = some ds ∧ d = c.acknowledged ds k) ∧
        (view C.toView).Holds d s) E := by
  refine .bind (Q := fun _ => (view C.toView).Holds c) (.gets fun _ hs => hs) fun outgoing => ?_
  cases outgoing with
  | nil => exact .pure fun s hs => ⟨c, .inl rfl, hs⟩
  | cons m rest =>
    refine .bind (Q := fun _ => (view C.toView).Holds c) (.modify fun _ hs => hs) fun _ => ?_
    refine (publish_ensures hC c m).mono (fun _ hs => hs) (fun _ s hs => ?_) fun _ _ hs => hs
    obtain ⟨d, hd, hs⟩ := hs
    exact ⟨d, hd.imp_right fun ⟨ds, hds, hd⟩ => ⟨ds, m.digest, hds, hd⟩, hs⟩

/-- A message that the topic accepts is taken off. -/
theorem publishNext_of_accepted (hkeeps : e.keepsOutbox = true) {m : Message} {rest : List Message}
    {ds : List (Octets 32)} (hds : c.digests? = some ds) {t t' : τ}
    (haccepted : e.topic.publish m t = (.ok (), t')) {E : StoreError → State σ τ → Prop} :
    Ensures (fun s => (view C.toView).Holds c s ∧ s.topic = t ∧ s.outgoing = m :: rest)
      e.publishNext (fun _ s => (view C.toView).Holds (c.acknowledged ds m.digest) s ∧
        s.topic = t' ∧ s.outgoing = rest)
      E := by
  rintro s ⟨hs, rfl, ho⟩
  have hnext : e.publishNext s = (.ok (),
      { s with
        storage := (Outbox.acknowledge e.backend m.digest).after s.storage
        topic := t'
        outgoing := rest
        metrics := s.metrics.add .messagesPublished 1 }) := by
    simp [publishNext, publish, bind_apply, ho, haccepted, hkeeps, onTopic, onStorage,
      count, Step.after]
  rw [hnext]
  refine ⟨?_, rfl, rfl⟩
  -- an error of the outbox would be dropped, but there is none where its list can be read
  cases hout : (Outbox.acknowledge e.backend m.digest).outcome s.storage with
  | ok _ =>
    obtain ⟨ds', hds', hafter⟩ := (Outbox.acknowledge_ensures hC c m.digest).ok hs hout
    cases hds.symm.trans hds'
    exact hafter
  | error _ =>
    have herror := (Outbox.acknowledge_ensures hC c m.digest).error hs hout
    rw [hds] at herror
    cases herror.1

omit hC in
/-- A message that the topic refuses stays in the outbox. -/
theorem publishNext_of_refused {m : Message} {rest : List Message} {err : StoreError} {t t' : τ}
    (hrefused : e.topic.publish m t = (.error err, t')) {E : StoreError → State σ τ → Prop} :
    Ensures (fun s => (view C.toView).Holds c s ∧ s.topic = t ∧ s.outgoing = m :: rest)
      e.publishNext
      (fun _ s => (view C.toView).Holds c s ∧ s.topic = t' ∧ s.outgoing = rest) E := by
  rintro s ⟨hs, rfl, ho⟩
  have hnext : e.publishNext s = (.ok (),
      { s with
        topic := t'
        outgoing := rest
        metrics := s.metrics.add .messagesPublishFailed 1 }) := by
    simp [publishNext, publish, bind_apply, ho, hrefused, onTopic, count]
  rw [hnext]
  exact ⟨hs, rfl, rfl⟩

end

/-! ## Over a reliable backend -/

section
variable {C : e.backend.Contract} (hC : C.Reliable) (c : Contents) {rs : List Record}
  {ws : List StoreWrite} (hmempool : ∀ w ∈ ws, w.record.id ≠ Record.mempool.id)
include hC hmempool

/-- **How a commit ends**: all is kept, or it stops at the first record whose id is taken, with the
records before it kept and no value. -/
theorem commit_cases_of_reliable :
    Ensures ((view C.toView).Holds c) (e.commit rs ws)
      (fun _ s => c.NewTo rs ∧ (view C.toView).Holds ((c.withRecords rs).withWrites ws) s)
      fun err s => ∃ before r rest, rs = before ++ r :: rest ∧ c.NewTo before ∧
        (c.withRecords before).records r.id ≠ none ∧ err = .recordAlreadyPresent r.id ∧
        (view C.toView).Holds (c.withRecords before) s := by
  refine (commit_calls (P := fun records values s => c.NewTo records ∧
      C.Holds ((c.withRecords records).withWrites values) s)
    (F := fun err s => ∃ before r rest, rs = before ++ r :: rest ∧ c.NewTo before ∧
      (c.withRecords before).records r.id ≠ none ∧ err = .recordAlreadyPresent r.id ∧
      C.Holds (c.withRecords before) s)
    (fun before r rest hrs => .of_fact fun hnew => ?_) fun before w rest hw =>
      .of_fact fun hnew => ?_).mono
    (fun _ hs => ⟨.nil c, hs⟩) (fun _ _ hs => hs) fun _ _ hs => hs
  · refine .of_cases (fun s _ hs hok => ?_) fun s err hs herr => ?_
    · obtain ⟨habsent, hafter⟩ := (hC.init_ensures _ r).ok hs hok
      exact ⟨hnew.snoc habsent, by rw [Contents.withRecords_append]; exact hafter⟩
    · obtain ⟨-, htaken, hafter⟩ := (hC.init_ensures _ r).error hs herr
      rw [hC.init r s hs.1, hs.2, if_pos (Option.isSome_iff_ne_none.mpr htaken)] at herr
      exact ⟨before, r, rest, hrs, hnew, htaken, (Except.error.inj herr).symm, hafter⟩
  · have hmem : w ∈ ws := hw ▸ List.mem_append_right _ List.mem_cons_self
    refine (hC.store_ensures _ w.key w.value (hmempool w hmem)).mono (fun _ hs => hs)
      (fun _ _ hs => ?_) fun _ _ hs => hs
    exact ⟨hnew, by rw [Contents.withWrites_append]; exact hs⟩

/-- **New records and their writes are all kept.** -/
theorem commit_of_reliable (hnew : c.NewTo rs) {E : StoreError → State σ τ → Prop} :
    Ensures ((view C.toView).Holds c) (e.commit rs ws)
      (fun _ => (view C.toView).Holds ((c.withRecords rs).withWrites ws)) E := by
  refine (commit_cases_of_reliable hC c hmempool).mono (fun _ hs => hs) (fun _ _ hs => hs.2) ?_
  rintro _ s ⟨before, r, rest, rfl, -, htaken, -⟩
  refine absurd ?_ htaken
  -- the records before it have other ids
  have hdistinct := hnew.distinct
  rw [List.map_append, List.nodup_append] at hdistinct
  rw [Contents.records_withRecords_of_absent fun hmem =>
    hdistinct.2.2 _ hmem r.id List.mem_cons_self rfl]
  exact hnew.absent r (List.mem_append_right _ List.mem_cons_self)

/-- **A batch with new records does not fail**, provided that it has a message and the
outbox can be read. -/
theorem finalize_of_reliable (hkeeps : e.keepsOutbox = true) {tx : Transaction}
    {message : Option Message} (hmessage : e.Composes tx ws message) {d : Contents}
    (hd : c.deposited? message = some d) (hnew : c.NewTo rs) {E : StoreError → State σ τ → Prop} :
    Ensures ((view C.toView).Holds c) (e.finalize tx rs ws)
      (fun _ => (view C.toView).Holds ((d.withRecords rs).withWrites ws)) E := by
  refine (finalize_ensures (P := (view C.toView).Holds c) (F := fun _ => False)
    (S := fun _ => (view C.toView).Holds ((d.withRecords rs).withWrites ws))
    (D := fun _ _ => (view C.toView).Holds d)
    (K := fun _ _ => (view C.toView).Holds ((d.withRecords rs).withWrites ws))
    (A := fun _ _ _ => False)
    ?_ ?_ ?_ ?_ ?_).mono (fun _ hs => hs) (fun _ s hs => ?_) fun _ _ hs => hs.elim
  · exact fun s hnone _ => hnone message hmessage
  · intro message' hmessage'
    cases hmessage.unique hmessage'
    refine (deposit_ensures hC.servesOutbox c hkeeps message).mono (fun _ hs => hs)
      (fun _ s hs => ?_) fun _ s hs => ?_
    · obtain ⟨-, d', hd', hs⟩ := hs
      cases hd.symm.trans hd'
      exact hs
    · rw [hd] at hs
      cases hs.1
  · intro _ _
    refine commit_of_reliable hC d hmempool ⟨hnew.distinct, fun r hr => ?_⟩
    rw [(Contents.agreesOff_deposited hd).records]
    exact hnew.absent r hr
  · exact fun _ _ _ _ hs => hs.elim
  · exact fun _ _ _ _ hs => hs
  · obtain ⟨_, -, hs⟩ := hs
    exact hs

end

end Engine
end SealedStore
