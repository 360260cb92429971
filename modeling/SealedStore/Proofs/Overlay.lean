import SealedStore.Proofs.Draft.Reads
import SealedStore.Proofs.Sample.Exchange

/-! # A draft shows what it will commit

Reads through a draft and the commit of a draft are written apart: a read looks for a staged
record, then for the last staged value, then at what is held, while a commit keeps the records and
then every value in order.  They agree.  What each read gives just before a finalization that
succeeds, the engine gives just after it (`Draft.reads_eq_committed`), refusals and errors
included.  Three facts on what runs lead to are needed: a draft stages each record under its own
id, an id that is new has no values (`Contents.Rooted`), and staged values go under records of the
draft or of what is held.
-/
namespace SealedStore

open Step

/-! ## Lists -/

namespace Contents

theorem index_withRecords (c : Contents) (rs : List Record) (space : String) (block : BitVec 64) :
    (c.withRecords rs).index space block = c.index space block ++
      (rs.filter fun r => r.decryptionCondition = block ∧ r.version = space).map (·.id) := by
  induction rs generalizing c with
  | nil => simp [withRecords]
  | cons r rs ih =>
    show ((c.withRecord r).withRecords rs).index space block = _
    rw [ih, List.filter_cons]
    by_cases hat : r.decryptionCondition = block ∧ r.version = space
    · simp [withRecord, hat]
    · have hpair : (r.version, r.decryptionCondition) ≠ (space, block) := by
        rintro ⟨⟩
        exact hat ⟨rfl, rfl⟩
      have hindex : (c.withRecord r).index space block = c.index space block := if_neg hpair
      rw [hindex, if_neg (by simpa using hat)]

end Contents

namespace Draft

/-- Staged records come behind the committed ones, save those whose id a committed one bears. -/
theorem merge_of_distinct {committed staged : List Record} (hnodup : (staged.map (·.id)).Nodup) :
    merge committed staged = committed ++ staged.filter fun r => ∀ q ∈ committed, q.id ≠ r.id := by
  induction staged generalizing committed with
  | nil => simp [merge]
  | cons r staged ih =>
    rw [List.map_cons, List.nodup_cons] at hnodup
    obtain ⟨hr, hstaged⟩ := hnodup
    by_cases htaken : ∃ q ∈ committed, q.id = r.id
    · have hstep : merge committed (r :: staged) = merge committed staged := by
        rw [merge, List.foldl_cons, if_pos (by simpa using htaken)]
        rfl
      rw [hstep, ih hstaged, List.filter_cons_of_neg (by simpa using htaken)]
    · have hstep : merge committed (r :: staged) = merge (committed ++ [r]) staged := by
        rw [merge, List.foldl_cons, if_neg (by simpa using htaken)]
        rfl
      -- no later record is lost for the one that joined, since it bears another id
      have hrest : (staged.filter fun p => ∀ q ∈ committed ++ [r], q.id ≠ p.id) =
          staged.filter fun p => ∀ q ∈ committed, q.id ≠ p.id := by
        refine List.filter_congr fun p hp => ?_
        have hne : r.id ≠ p.id := fun hid => hr (hid ▸ List.mem_map_of_mem hp)
        simp [or_imp, forall_and, hne]
      rw [hstep, ih hstaged, hrest, List.filter_cons_of_pos (by simpa using htaken),
        List.append_assoc]
      rfl

/-- Records with ids of their own come behind the committed ones. -/
theorem merge_of_new {committed staged : List Record} (hnodup : (staged.map (·.id)).Nodup)
    (hnew : ∀ r ∈ staged, ∀ q ∈ committed, q.id ≠ r.id) :
    merge committed staged = committed ++ staged := by
  rw [merge_of_distinct hnodup, List.filter_eq_self.mpr fun r hr => decide_eq_true (hnew r hr)]

/-! ## What is held once a draft is committed -/

/-- The contents with what a draft has staged. -/
def committed (c : Contents) (d : Draft) : Contents :=
  (c.withRecords d.records.values).withWrites d.writes

section
variable {c g : Contents} {d : Draft} (h : Arises c d) (hnew : c.NewTo d.records.values)
  (hg : Contents.AgreesOff Record.outbox.id (d.committed c) g)
include h hnew hg

/-- The record of an id is the staged one if there is one. -/
theorem records_committed (id : RecordId) :
    g.records id = (d.records.find? id).or (c.records id) := by
  rw [hg.records, committed, Contents.records_withWrites]
  cases hr : d.records.find? id with
  | some r =>
    obtain rfl := h.keyed.id_eq hr
    exact Contents.records_withRecords_of_mem hnew.distinct (Table.mem_values_of_find? hr)
  | none => exact Contents.records_withRecords_of_absent (h.keyed.not_mem hr)

theorem genuine_committed : g.Genuine := by
  intro id r hr
  rw [records_committed h hnew hg] at hr
  cases hfind : d.records.find? id with
  | some q =>
    rw [hfind, Option.some_or] at hr
    obtain rfl := Option.some.inj hr
    obtain rfl := h.keyed.id_eq hfind
    exact ⟨rfl, h.sound.staged q (Table.mem_values_of_find? hfind)⟩
  | none =>
    rw [hfind, Option.none_or] at hr
    exact h.genuine id r hr

theorem record_committed (id : RecordId) : g.record id = record c d id := by
  rw [Contents.record, records_committed h hnew hg, record, Contents.record]
  cases d.records.find? id <;> rfl

omit h hnew in
/-- The value under a record and a key is the last staged one if there is one. -/
theorem values_committed {id : RecordId} (hid : id ≠ Record.outbox.id) (key : String) :
    g.values id key = (d.staged? id key).or (c.values id key) := by
  rw [hg.values id hid, committed, Contents.values_withWrites, Contents.values_withRecords]
  rfl

omit hnew hg in
/-- A record that is found bears the id it is found by, which is not the outbox's. -/
theorem id_of_record {id : RecordId} {r : Record} (hr : record c d id = .ok r) :
    r.id = id ∧ id ≠ Record.outbox.id := by
  unfold record at hr
  split at hr
  · next hq =>
    obtain rfl := Except.ok.inj hr
    obtain rfl := h.keyed.id_eq hq
    have hderived := h.sound.staged _ (Table.mem_values_of_find? hq)
    exact ⟨rfl, hderived ▸ Record.derivedId_ne_outbox _⟩
  · obtain ⟨rfl, hderived⟩ := h.genuine id r (Contents.record_ok_iff.mp hr)
    exact ⟨rfl, hderived ▸ r.derivedId_ne_outbox⟩

omit hg in
/-- Nothing is held under the id of a staged record, which is new. -/
theorem values_of_staged {id : RecordId} (hid : d.records.contains id = true)
    (hne : id ≠ Record.outbox.id) (key : String) : c.values id key = none := by
  obtain ⟨r, hr⟩ := Option.isSome_iff_exists.mp hid
  obtain rfl := h.keyed.id_eq hr
  by_contra hvalue
  exact h.rooted.values r.id key hne hvalue (hnew.absent r (Table.mem_values_of_find? hr))

/-- **A value is read** as it is read after the commit. -/
theorem read_committed (id : RecordId) (caller : Address) (key : String) :
    g.read id caller key = read c d id caller key := by
  rw [Contents.read, record_committed h hnew hg, read]
  refine Check.bind_congr fun r hr => Check.bind_congr fun _ hpeeker => ?_
  obtain ⟨rfl, hid⟩ := id_of_record h hr
  have hheld : g.records r.id = some r :=
    Contents.record_ok_iff.mp ((record_committed h hnew hg r.id).trans hr)
  rw [Contents.value, values_committed hg hid, Backend.Contract.missing, hheld]
  cases hstaged : d.staged? r.id key with
  | some value => rfl
  | none =>
    rw [Option.none_or]
    cases hcontains : d.records.contains r.id with
    | true =>
      rw [values_of_staged h hnew hcontains hid]
      rfl
    | false =>
      -- the record is held, so the engine finds it and the account may read it
      have hnone : d.records.find? r.id = none := by simpa [Table.contains] using hcontains
      have hrecord : c.record r.id = .ok r := by rw [← hr, record, hnone]
      show _ = c.read r.id caller key
      rw [Contents.read, hrecord]
      simp only [bind, Except.bind, hpeeker]
      rw [Contents.value, Backend.Contract.missing, Contents.record_ok_iff.mp hrecord]

omit h in
theorem records_of_staged {r : Record} (hr : r ∈ d.records.values) : g.records r.id = some r := by
  rw [hg.records, committed, Contents.records_withWrites]
  exact Contents.records_withRecords_of_mem hnew.distinct hr

omit hg in
/-- No record is staged under the id of one that is held. -/
theorem find?_of_held {id : RecordId} (hid : c.records id ≠ none) : d.records.find? id = none := by
  by_contra hstaged
  obtain ⟨r, hr⟩ := Option.ne_none_iff_exists'.mp hstaged
  obtain rfl := h.keyed.id_eq hr
  exact hid (hnew.absent r (Table.mem_values_of_find? hr))

/-- **A list** is what it is after the commit: the records of the draft come last. -/
theorem listing_committed (block : BitVec 64) (space : String) :
    g.listing block space = listing c d block space := by
  have hmem : ∀ r ∈ d.listed block space, r ∈ d.records.values :=
    fun r hr => List.mem_of_mem_filter hr
  have hindex : g.index space block = c.index space block ++ (d.listed block space).map (·.id) := by
    rw [hg.index, committed, Contents.index_withWrites, Contents.index_withRecords]
    rfl
  have hold : (c.index space block).filterMap g.records = c.listing block space := by
    refine List.filterMap_congr fun id hid => ?_
    rw [records_committed h hnew hg, find?_of_held h hnew (h.rooted.index space block id hid),
      Option.none_or]
  have hlisted : ((d.listed block space).map (·.id)).filterMap g.records =
      d.listed block space := by
    rw [List.filterMap_map]
    calc (d.listed block space).filterMap (g.records ∘ (·.id))
        = (d.listed block space).filterMap some :=
          List.filterMap_congr fun r hr => records_of_staged hnew hg (hmem r hr)
      _ = d.listed block space := List.filterMap_some
  have hmerge : merge (c.listing block space) (d.listed block space) =
      c.listing block space ++ d.listed block space := by
    refine merge_of_new (hnew.distinct.sublist (List.filter_sublist.map _)) fun r hr q hq hid => ?_
    obtain ⟨i, -, hq⟩ := List.mem_filterMap.mp hq
    obtain ⟨rfl, -⟩ := h.genuine i q hq
    rw [hid, hnew.absent r (hmem r hr)] at hq
    cases hq
  rw [Contents.listing, hindex, List.filterMap_append, hold, hlisted, listing, hmerge]

end

/-! ## Finalizations that succeed -/

variable {σ τ : Type} {e : Engine σ τ} {C : e.backend.Contract}

/-- What a finalization that succeeds leaves. -/
theorem finalize_of_ok {x : Execution σ τ} (hx : Reached C x)
    (hcommit : (finalize e).outcome x = .ok ()) :
    (C.see x.engine.storage).NewTo x.draft.records.values ∧ ∃ g,
      Contents.AgreesOff Record.outbox.id (x.draft.committed (C.see x.engine.storage)) g ∧
        (Engine.view C.toView).Holds g ((finalize e).after x).engine := by
  cases hfinal : x.draft.finalized with
  | true =>
    rw [outcome, finalize_of_finalized hfinal] at hcommit
    cases hcommit
  | false =>
    rw [outcome_finalize_of_open hfinal] at hcommit
    rw [engine_finalize_of_open hfinal]
    have hmempool : ∀ w ∈ x.draft.writes, w.record.id ≠ Record.mempool.id := fun w hw =>
      Session.id_ne_mempool_of_sound hx.2.sound hw
    exact (Engine.finalize_holdsOff C (C.see x.engine.storage) x.draft.tx
      x.draft.records.values hmempool).ok (s := x.engine) ⟨hx.1, rfl⟩ hcommit

/-- **A draft shows what it commits.**  Whatever runs lead to, if a draft is finalized with success,
then the engine gives just after it what the draft gave just before: every record, every value to
every account, or the same error, and every list up to order. -/
theorem reads_eq_committed (hC : C.Reliable) {x : Execution σ τ} (hx : Reached C x)
    (hcommit : (finalize e).outcome x = .ok ()) :
    let s := ((finalize e).after x).engine
    (∀ id caller key, (e.retrieve id caller key).outcome s = (retrieve e id caller key).outcome x) ∧
      (∀ id, (e.fetch id).outcome s = (fetch e id).outcome x) ∧
      ∀ block space, ∃ rs qs, (list e block space).outcome x = .ok rs ∧
        (e.list block space).outcome s = .ok qs ∧ qs.Perm rs := by
  intro s
  obtain ⟨hnew, g, hg, hs⟩ := finalize_of_ok hx hcommit
  have hat : At C (C.see x.engine.storage) x.draft x := ⟨⟨hx.1, rfl⟩, rfl⟩
  have hgenuine := genuine_committed hx.2 hnew hg
  refine ⟨fun id caller key => ?_, fun id => ?_, fun block space => ?_⟩
  · rw [(Engine.retrieve_gives hC hgenuine id caller key).outcome hs,
      (retrieve_gives _ hC hx.2.genuine id caller key).outcome hat, read_committed hx.2 hnew hg]
  · rw [(Engine.fetch_gives hC g id).outcome hs, (fetch_gives _ _ hC id).outcome hat,
      record_committed hx.2 hnew hg]
  · refine ⟨_, _, (list_gives _ _ hC block space).outcome hat,
      (Engine.list_gives hC g block space).outcome hs, ?_⟩
    rw [listing_committed hx.2 hnew hg]

/-- The statement at a draft that stages a record and a value under it. -/
theorem reads_eq_committed_first_value :
    let e := Sample.publisher
    let x : Execution Memory (Hub Message) := ⟨.initial Memory.empty .empty, Sample.stagedDraft⟩
    let s := ((finalize e).after x).engine
    Sample.publisherContract.Reliable ∧ Reached Sample.publisherContract x ∧
      (finalize e).outcome x = .ok () ∧
      (retrieve e Sample.record.id Sample.account "k").outcome x = .ok [1] ∧
      (e.retrieve Sample.record.id Sample.account "k").outcome s = .ok [1] ∧
      (e.retrieve Sample.record.id Sample.account "l").outcome s =
        .error (.keyNotFound Sample.record.id "l") ∧
      (e.fetch Sample.record.id).outcome s = .ok Sample.record ∧
      (e.list 0 "sample").outcome s = .ok [Sample.record] := by
  intro e x s
  have hC : Sample.publisherContract.Reliable := Memory.contract_reliable
  have hstaging :
      (Session.run Sample.publisher (.initial Memory.empty .empty) Sample.staging).Reachable
      Sample.publisherContract := ⟨Memory.empty, .empty, _, trivial, rfl, rfl⟩
  have hx : Reached Sample.publisherContract x := by
    rw [Sample.run_staging] at hstaging
    exact hstaging.reached (List.mem_singleton.mpr rfl)
  have hcommit : (finalize e).outcome x = .ok () := Sample.commits_staged _ rfl
  have hat : At Sample.publisherContract .empty Sample.stagedDraft x := ⟨⟨trivial, rfl⟩, rfl⟩
  obtain ⟨hretrieve, hfetch, hlist⟩ := reads_eq_committed hC hx hcommit
  have hgenuine : Contents.empty.Genuine := nofun
  have hrecord : record .empty Sample.stagedDraft Sample.record.id = .ok Sample.record := by
    rw [record, show Sample.stagedDraft.records.find? _ = _ from Table.find?_insert_self ..]
  have hstaged : Sample.stagedDraft.staged? Sample.record.id "k" = some [1] := by
    simp [staged?, Sample.stagedDraft, Sample.write]
  have hk : (retrieve e Sample.record.id Sample.account "k").outcome x = .ok [1] := by
    rw [(retrieve_gives _ hC hgenuine _ _ _).outcome hat, read, hrecord]
    simp only [bind, Except.bind, Sample.checkPeeker_account, hstaged]
  have hl : (retrieve e Sample.record.id Sample.account "l").outcome x =
      .error (.keyNotFound Sample.record.id "l") := by
    have hcontains : Sample.stagedDraft.records.contains Sample.record.id = true := by
      simp [Sample.stagedDraft, Table.contains]
    have hmissing : Sample.stagedDraft.staged? Sample.record.id "l" = none := by
      simp [staged?, Sample.stagedDraft, Sample.write]
    rw [(retrieve_gives _ hC hgenuine _ _ _).outcome hat, read, hrecord]
    simp only [bind, Except.bind, Sample.checkPeeker_account, hmissing, hcontains, if_true]
  have hrs : (list e 0 "sample").outcome x = .ok [Sample.record] := by
    have hlisted : Sample.stagedDraft.listed 0 "sample" = [Sample.record] := by
      have hat : Sample.record.decryptionCondition = 0 ∧ Sample.record.version = "sample" := by
        unfold Sample.record
        exact ⟨rfl, rfl⟩
      simp [listed, Sample.stagedDraft, Table.values, Table.insert, Table.empty, Table.put, hat]
    rw [(list_gives _ _ hC 0 "sample").outcome hat, listing, hlisted]
    rfl
  obtain ⟨rs, qs, hbefore, hafter, hperm⟩ := hlist 0 "sample"
  obtain rfl := Except.ok.inj (hrs.symm.trans hbefore)
  refine ⟨hC, hx, hcommit, hk, (hretrieve _ _ _).trans hk, (hretrieve _ _ _).trans hl, ?_, ?_⟩
  · rw [hfetch, (fetch_gives _ _ hC _).outcome hat, hrecord]
  · rw [hafter, List.perm_singleton.mp hperm]

end Draft
end SealedStore
