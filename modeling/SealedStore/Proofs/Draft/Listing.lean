import SealedStore.Proofs.Draft.Order
import SealedStore.Proofs.Replication.Access
import SealedStore.Proofs.Session.Listings

/-! # Lists and look-ups of a draft

A draft looks a record up among those that it has staged and then among those that are held
(`Draft.found?`), and it lists those that are held and then those that it has staged
(`Draft.shown?`).  Where an id is both staged and held, by the commit of another draft or by a
message, the two show different copies.  Both copies bear the id, and an id binds all of a record
but its transaction and its signature (`Draft.copies_agree`).  So a list names just the ids that
look-ups find in its namespace and under its decryption condition, each once, and shows what they
show save for these two fields (`Session.draft_lists_fetched`).  These fields do differ
(`Session.lists_held_fetches_staged`).
-/
namespace SealedStore

open Step

namespace Draft

/-- The records that a draft meets: those that it has staged and those that are held. -/
def Meets (c : Contents) (d : Draft) (r : Record) : Prop :=
  r ∈ d.records.values ∨ ∃ id, c.records id = some r

/-- The copy of a record that lists show: the held one if there is one. -/
def shown? (c : Contents) (d : Draft) (id : RecordId) : Option Record :=
  (c.records id).or (d.records.find? id)

/-- The copy of a record that look-ups find: the staged one if there is one. -/
def found? (c : Contents) (d : Draft) (id : RecordId) : Option Record :=
  (d.records.find? id).or (c.records id)

theorem exists_found_iff {c : Contents} {d : Draft} {id : RecordId} :
    (∃ q, found? c d id = some q) ↔ ∃ r, shown? c d id = some r := by
  rw [← Option.isSome_iff_exists, ← Option.isSome_iff_exists, found?, shown?,
    Option.isSome_or, Option.isSome_or, Bool.or_comm]

/-- There is one copy where the id is not both staged and held. -/
theorem found?_eq_shown? {c : Contents} {d : Draft} {id : RecordId}
    (h : d.records.find? id = none ∨ c.records id = none) : found? c d id = shown? c d id := by
  rcases h with h | h <;> rw [found?, shown?, h, Option.none_or, Option.or_none]

theorem record_ok_iff {c : Contents} {d : Draft} {id : RecordId} {r : Record} :
    record c d id = .ok r ↔ found? c d id = some r := by
  unfold record found?
  cases d.records.find? id with
  | some q => simp
  | none => exact Contents.record_ok_iff

section
variable {c : Contents} {d : Draft} (h : Arises c d)
  (hdistinct : (d.records.values.map (·.id)).Nodup) (hfree : Record.CollisionFree (d.Meets c))

include hdistinct in
theorem nodup_listed (block : BitVec 64) (space : String) :
    ((d.listed block space).map (·.id)).Nodup :=
  hdistinct.sublist (List.filter_sublist.map _)

include h hdistinct in
/-- A staged record is found by its id. -/
theorem find?_iff_mem {r : Record} : d.records.find? r.id = some r ↔ r ∈ d.records.values := by
  refine ⟨Table.mem_values_of_find?, fun hr => ?_⟩
  cases hfind : d.records.find? r.id with
  | none => exact absurd (List.mem_map_of_mem hr) (h.keyed.not_mem hfind)
  | some q =>
    have hid : q.id = r.id := h.keyed.id_eq hfind
    rw [List.inj_on_of_nodup_map hdistinct (Table.mem_values_of_find? hfind) hr hid]

include h hfree

/-- A staged record and the one that is held under its id differ in nothing that the id binds. -/
theorem sameAccess_of_held {r q : Record} (hr : r ∈ d.records.values)
    (hq : c.records r.id = some q) :
    r.SameAccess q := by
  obtain ⟨-, hderived⟩ := h.genuine r.id q hq
  exact hfree.sameAccess (.inl hr) (.inr ⟨r.id, hq⟩) ((h.sound.staged r hr).trans hderived.symm)

/-- **Two copies of a record differ in transaction and signature alone.** -/
theorem copies_agree {id : RecordId} {r q : Record} (hr : shown? c d id = some r)
    (hq : found? c d id = some q) :
    r.id = id ∧ q.id = id ∧ q.SameAccess r := by
  unfold shown? at hr
  unfold found? at hq
  cases hheld : c.records id with
  | none =>
    rw [hheld, Option.none_or] at hr
    rw [hr, Option.some_or, Option.some.injEq] at hq
    have hid := h.keyed.id_eq hr
    exact ⟨hid, hq ▸ hid, hq ▸ .refl r⟩
  | some p =>
    rw [hheld, Option.some_or, Option.some.injEq] at hr
    subst hr
    have hpid := (h.genuine id p hheld).1
    cases hstaged : d.records.find? id with
    | none =>
      rw [hstaged, hheld, Option.none_or, Option.some.injEq] at hq
      exact ⟨hpid, hq ▸ hpid, hq ▸ .refl p⟩
    | some s =>
      rw [hstaged, Option.some_or, Option.some.injEq] at hq
      subst hq
      have hsid := h.keyed.id_eq hstaged
      exact ⟨hpid, hsid, sameAccess_of_held h hfree (Table.mem_values_of_find? hstaged)
        (hsid ▸ hheld)⟩

variable {log : List Record} (hlogs : c.Logs log) (block : BitVec 64) (space : String)
include hdistinct hlogs

/-- **A list shows the records of its namespace and decryption condition**, the held copy of each
before the staged one. -/
theorem mem_listing_iff {r : Record} : r ∈ listing c d block space ↔
    shown? c d r.id = some r ∧ r.decryptionCondition = block ∧ r.version = space := by
  rw [listing, merge_of_distinct (nodup_listed hdistinct block space), List.mem_append,
    hlogs.mem_listing_iff, List.mem_filter, decide_eq_true_iff]
  constructor
  · rintro (⟨hheld, hat⟩ | ⟨hlisted, hnew⟩)
    · exact ⟨by rw [shown?, hheld, Option.some_or], hat⟩
    · obtain ⟨hmem, hat⟩ := List.mem_filter.mp hlisted
      have hat : r.decryptionCondition = block ∧ r.version = space := of_decide_eq_true hat
      have habsent : c.records r.id = none := by
        by_contra hheld
        obtain ⟨q, hq⟩ := Option.ne_none_iff_exists'.mp hheld
        -- the held copy would be on this very list, and the staged one would not have joined it
        have hsame := sameAccess_of_held h hfree hmem hq
        have hqid := (h.genuine r.id q hq).1
        refine hnew q (hlogs.mem_listing_iff.mpr ⟨hqid.symm ▸ hq, ?_, ?_⟩) hqid
        · exact hsame.decryptionCondition ▸ hat.1
        · exact hsame.version ▸ hat.2
      exact ⟨by rw [shown?, habsent, Option.none_or, find?_iff_mem h hdistinct]; exact hmem, hat⟩
  · rintro ⟨hshown, hat⟩
    unfold shown? at hshown
    cases hheld : c.records r.id with
    | some q =>
      rw [hheld, Option.some_or] at hshown
      exact .inl ⟨hshown, hat⟩
    | none =>
      rw [hheld, Option.none_or] at hshown
      have hlisted : r ∈ d.listed block space :=
        List.mem_filter.mpr ⟨Table.mem_values_of_find? hshown, decide_eq_true hat⟩
      refine .inr ⟨hlisted, fun q hq hid => ?_⟩
      have hq := (hlogs.mem_listing_iff.mp hq).1
      rw [hid, hheld] at hq
      cases hq

omit h hfree in
theorem nodup_listing : ((listing c d block space).map Record.id).Nodup := by
  have hlisted := nodup_listed hdistinct block space
  rw [listing, merge_of_distinct hlisted, List.map_append, List.nodup_append]
  refine ⟨hlogs.nodup_listing block space, hlisted.sublist (List.filter_sublist.map _), ?_⟩
  rintro id hheld _ hstaged rfl
  obtain ⟨q, hq, rfl⟩ := List.mem_map.mp hheld
  obtain ⟨r, hr, hid⟩ := List.mem_map.mp hstaged
  exact of_decide_eq_true (List.mem_filter.mp hr).2 q hq hid.symm

/-- The ids on a list are those that look-ups find in its namespace and under its
decryption condition. -/
theorem mem_listing_ids_iff {id : RecordId} : id ∈ (listing c d block space).map Record.id ↔
    ∃ q, found? c d id = some q ∧ q.decryptionCondition = block ∧ q.version = space := by
  constructor
  · intro hid
    obtain ⟨r, hr, rfl⟩ := List.mem_map.mp hid
    obtain ⟨hshown, hat⟩ := (mem_listing_iff h hdistinct hfree hlogs block space).mp hr
    obtain ⟨q, hq⟩ := exists_found_iff.mpr ⟨r, hshown⟩
    obtain ⟨-, -, hsame⟩ := copies_agree h hfree hshown hq
    exact ⟨q, hq, hsame.decryptionCondition.trans hat.1, hsame.version.trans hat.2⟩
  · rintro ⟨q, hq, hat⟩
    obtain ⟨r, hshown⟩ := exists_found_iff.mp ⟨q, hq⟩
    obtain ⟨rfl, -, hsame⟩ := copies_agree h hfree hshown hq
    refine List.mem_map_of_mem
      ((mem_listing_iff h hdistinct hfree hlogs block space).mpr ⟨hshown, ?_, ?_⟩)
    · exact hsame.decryptionCondition.symm.trans hat.1
    · exact hsame.version.symm.trans hat.2

end

end Draft

/-! ## One record in two drafts -/

namespace Sample

/-- Another transaction of the account. -/
def otherTx : Transaction := { tx with payload := .legacy none 1 none ⟨0, 0, 0, []⟩ }

/-- The record as it is created by this transaction. -/
def otherCopy : Record := { record with creationTx := some otherTx }

/-- Two drafts have staged the record, and the first was committed. -/
def sharing : Session Memory (Hub Message) :=
  Session.run (engine Octets.zero true) (.initial Memory.empty .empty)
    [.begin tx, .begin otherTx, .init 0 bareRecord, .init 1 bareRecord, .finalize 0]

theorem reachable_sharing : sharing.Reachable (contract Topic.ofHub Octets.zero true) :=
  ⟨Memory.empty, .empty, _, trivial, see_empty .., rfl⟩

/-- What the second draft meets and shows. -/
theorem shows_sharing : ∃ d ∈ sharing.drafts, d.finalized = false ∧
    Record.CollisionFree
      (d.Meets ((contract Topic.ofHub Octets.zero true).see sharing.engine.storage)) ∧
    (Draft.list (engine Octets.zero true) 0 "sample").outcome ⟨sharing.engine, d⟩ = .ok [record] ∧
    (Draft.fetch (engine Octets.zero true) record.id).outcome ⟨sharing.engine, d⟩ =
      .ok otherCopy := by
  have hshown : sharing.engine.storage.records.values = [record] ∧
      sharing.drafts[1]?.map (fun d => (d.finalized, d.records.values,
        (Draft.list (engine Octets.zero true) 0 "sample").outcome ⟨sharing.engine, d⟩,
        (Draft.fetch (engine Octets.zero true) record.id).outcome ⟨sharing.engine, d⟩)) =
          some (false, [otherCopy], .ok [record], .ok otherCopy) := by decide +kernel
  -- the run is not to be unfolded any more
  generalize sharing = s at hshown ⊢
  obtain ⟨hheld, hshown⟩ := hshown
  obtain ⟨d, hd, hshown⟩ := Option.map_eq_some_iff.mp hshown
  simp only [Prod.mk.injEq] at hshown
  obtain ⟨hopen, hstaged, hlist, hfetch⟩ := hshown
  refine ⟨d, List.mem_of_getElem? hd, hopen, ?_, hlist, hfetch⟩
  have hmeets : ∀ r, d.Meets ((contract Topic.ofHub Octets.zero true).see s.engine.storage) r →
      r.SameAccess record := by
    rintro r (hr | ⟨id, hr⟩)
    · cases List.mem_singleton.mp (hstaged ▸ hr)
      exact ⟨rfl, rfl, rfl, rfl, rfl⟩
    · have hr : r ∈ s.engine.storage.records.values := Table.mem_values_of_find? hr
      cases List.mem_singleton.mp (hheld ▸ hr)
      exact .refl _
  intro r q hr hq _
  exact (Record.canonicalBytes_eq_iff.mpr (hmeets r hr)).trans
    (Record.canonicalBytes_eq_iff.mpr (hmeets q hq)).symm

end Sample

/-! ## Drafts on any run -/

namespace Session

variable {σ τ : Type} {e : Engine σ τ} {C : e.backend.Contract}

/-- **A list and the look-ups of its ids**: it names each id once, just those that are found in its
namespace and under its decryption condition.  What it shows is what is found, in all that an id
binds; it is the same record where the id is not both staged and held; and where it is both, the
list shows the held copy and the look-up finds the staged one. -/
structure ListsFetched (e : Engine σ τ) (x : Draft.Execution σ τ)
    (block : BitVec 64) (space : String) (rs : List Record) : Prop where
  once : (rs.map Record.id).Nodup
  mem_iff : ∀ id, id ∈ rs.map Record.id ↔ ∃ q, (Draft.fetch e id).outcome x = .ok q ∧
    q.decryptionCondition = block ∧ q.version = space
  access : ∀ r ∈ rs, ∃ q, (Draft.fetch e r.id).outcome x = .ok q ∧ q.id = r.id ∧ q.SameAccess r
  same : ∀ r ∈ rs, x.draft.records.find? r.id = none ∨
    (∀ q, (e.fetch r.id).outcome x.engine ≠ .ok q) →
    (Draft.fetch e r.id).outcome x = .ok r
  overlap : ∀ r ∈ rs, ∀ p q, (e.fetch r.id).outcome x.engine = .ok p →
    x.draft.records.find? r.id = some q →
    r = p ∧ (Draft.fetch e r.id).outcome x = .ok q

/-- **The lists of a draft agree with its look-ups** on any run over a reliable backend,
whatever was committed or arrived before and after a record was staged, if no two records that
the draft meets collide. -/
theorem draft_lists_fetched (hC : C.Reliable) {s : Session σ τ} (hs : s.Reachable C) {d : Draft}
    (hd : d ∈ s.drafts) (hfree : Record.CollisionFree (d.Meets (C.see s.engine.storage)))
    (block : BitVec 64) (space : String) :
    ∃ rs, (Draft.list e block space).outcome ⟨s.engine, d⟩ = .ok rs ∧
      ListsFetched e ⟨s.engine, d⟩ block space rs := by
  obtain ⟨log, hlogs⟩ := hs.logs hC
  obtain ⟨hvalid, harises⟩ := hs.reached hd
  have hdistinct := (hs.committable hd).distinct
  have hat : Draft.At C (C.see s.engine.storage) d ⟨s.engine, d⟩ := ⟨⟨hvalid, rfl⟩, rfl⟩
  have hfetch : ∀ id q, (Draft.fetch e id).outcome ⟨s.engine, d⟩ = .ok q ↔
      Draft.found? (C.see s.engine.storage) d id = some q := fun id q => by
    rw [(Draft.fetch_gives _ _ hC id).outcome hat, Draft.record_ok_iff]
  have hheld : ∀ id q, (e.fetch id).outcome s.engine = .ok q ↔
      (C.see s.engine.storage).records id = some q :=
    fun id q => by rw [(Engine.fetch_gives hC _ id).outcome hat.1, Contents.record_ok_iff]
  have hshown : ∀ r ∈ Draft.listing (C.see s.engine.storage) d block space,
      Draft.shown? (C.see s.engine.storage) d r.id = some r := fun r hr =>
    ((Draft.mem_listing_iff harises hdistinct hfree hlogs block space).mp hr).1
  refine ⟨_, (Draft.list_gives _ _ hC block space).outcome hat,
    Draft.nodup_listing hdistinct hlogs block space, fun id => ?_, fun r hr => ?_,
    fun r hr halone => ?_, fun r hr p q hp hq => ?_⟩
  · simp only [hfetch]
    exact Draft.mem_listing_ids_iff harises hdistinct hfree hlogs block space
  · obtain ⟨q, hq⟩ := Draft.exists_found_iff.mpr ⟨r, hshown r hr⟩
    exact ⟨q, (hfetch r.id q).mpr hq, (Draft.copies_agree harises hfree (hshown r hr) hq).2⟩
  · refine (hfetch r.id r).mpr
      ((Draft.found?_eq_shown? (halone.imp_right fun hnone => ?_)).trans (hshown r hr))
    by_contra hsome
    obtain ⟨q, hq⟩ := Option.ne_none_iff_exists'.mp hsome
    exact hnone q ((hheld r.id q).mpr hq)
  · have hheldcopy := hshown r hr
    rw [Draft.shown?, (hheld r.id p).mp hp, Option.some_or] at hheldcopy
    exact ⟨(Option.some.inj hheldcopy).symm,
      (hfetch r.id q).mpr (by rw [Draft.found?, hq, Option.some_or])⟩

/-- The statement at the second of two drafts of one record, the first of which was committed. -/
theorem draft_lists_fetched_sharing :
    let C := Sample.contract Topic.ofHub Octets.zero true
    let s := Sample.sharing
    C.Reliable ∧ s.Reachable C ∧ ∃ d ∈ s.drafts,
      Record.CollisionFree (d.Meets (C.see s.engine.storage)) ∧
      (Draft.list (Sample.engine Octets.zero true) 0 "sample").outcome ⟨s.engine, d⟩ =
        .ok [Sample.record] ∧
      ListsFetched (Sample.engine Octets.zero true) ⟨s.engine, d⟩ 0 "sample" [Sample.record] := by
  intro C s
  have hC : C.Reliable := Sample.contract_reliable ..
  obtain ⟨d, hd, -, hfree, hlist, -⟩ := Sample.shows_sharing
  obtain ⟨rs, hrs, hlists⟩ := draft_lists_fetched hC Sample.reachable_sharing hd hfree 0 "sample"
  cases hlist.symm.trans hrs
  exact ⟨hC, Sample.reachable_sharing, d, hd, hfree, hlist, hlists⟩

/-- **A list shows another copy than a look-up finds** where the record of an open draft was
committed by another draft: the two copies name different transactions. -/
theorem lists_held_fetches_staged :
    let e := Sample.engine Octets.zero true
    let C := Sample.contract Topic.ofHub Octets.zero true
    let s := Sample.sharing
    C.Reliable ∧ s.Reachable C ∧ ∃ d ∈ s.drafts, d.finalized = false ∧
      Record.CollisionFree (d.Meets (C.see s.engine.storage)) ∧
      (Draft.list e 0 "sample").outcome ⟨s.engine, d⟩ = .ok [Sample.record] ∧
      (Draft.fetch e Sample.record.id).outcome ⟨s.engine, d⟩ = .ok Sample.otherCopy ∧
      Sample.otherCopy ≠ Sample.record := by
  intro e C s
  obtain ⟨d, hd, hopen, hfree, hlist, hfetch⟩ := Sample.shows_sharing
  have hcreation : Sample.otherCopy.creationTx ≠ Sample.record.creationTx := by decide +kernel
  exact ⟨Sample.contract_reliable .., Sample.reachable_sharing, d, hd, hopen, hfree, hlist, hfetch,
    fun hsame => hcreation (congrArg Record.creationTx hsame)⟩

end Session
end SealedStore
