import Mathlib.Data.List.Nodup
import SealedStore.Proofs.Backend.Contents

/-! # What is listed

A backend lists records by namespace and decryption condition.  Each list names just the records
that were listed, each once and on its own list alone (`Contents.Lists`): a record that is kept only
where none has its id comes on one list or on none.  Where every record was listed
(`Contents.Indexed`), writes that are taken in keep it so (`Indexed.ingestAll`).
-/
namespace SealedStore.Contents

/-- **Lists that name just these ids**: records bear the ids that they are held under, the ids are
held, and a list names those of its namespace and decryption condition, each once. -/
structure Lists (done : RecordId → Prop) (c : Contents) : Prop where
  bears : ∀ id r, c.records id = some r → r.id = id
  held : ∀ id, done id → c.records id ≠ none
  nodup : ∀ space block, (c.index space block).Nodup
  mem_iff : ∀ space block id, id ∈ c.index space block ↔
    done id ∧ ∃ r, c.records id = some r ∧ (r.version, r.decryptionCondition) = (space, block)

/-- **Faithful lists**: records bear the ids that they are held under, and a list names those of its
namespace and decryption condition, each once. -/
structure Indexed (c : Contents) : Prop where
  bears : ∀ id r, c.records id = some r → r.id = id
  nodup : ∀ space block, (c.index space block).Nodup
  mem_iff : ∀ space block id, id ∈ c.index space block ↔
    ∃ r, c.records id = some r ∧ (r.version, r.decryptionCondition) = (space, block)

theorem lists_empty : empty.Lists fun _ => False where
  bears := nofun
  held := nofun
  nodup _ _ := List.nodup_nil
  mem_iff _ _ _ := ⟨nofun, nofun⟩

theorem indexed_empty : empty.Indexed where
  bears := nofun
  nodup _ _ := List.nodup_nil
  mem_iff _ _ _ := ⟨nofun, nofun⟩

variable {c : Contents} {done : RecordId → Prop}

theorem Lists.congr (h : c.Lists done) {finished : RecordId → Prop}
    (hdone : ∀ id, finished id ↔ done id) :
    c.Lists finished := by
  rwa [show finished = done from funext fun id => propext (hdone id)]

/-- Faithful lists name everything that is held. -/
theorem indexed_iff : c.Indexed ↔ c.Lists fun id => c.records id ≠ none := by
  refine ⟨fun h => ⟨h.bears, fun _ hid => hid, h.nodup, fun space block id => ?_⟩, fun h =>
    ⟨h.bears, h.nodup, fun space block id => ?_⟩⟩
  · rw [h.mem_iff]
    exact ⟨fun ⟨r, hr, hat⟩ => ⟨by simp [hr], r, hr, hat⟩, fun hid => hid.2⟩
  · rw [h.mem_iff]
    exact ⟨fun hid => hid.2, fun ⟨r, hr, hat⟩ => ⟨by simp [hr], r, hr, hat⟩⟩

theorem Lists.bears_withRecord (h : c.Lists done) (r : Record) (id : RecordId) (q : Record)
    (hq : (c.withRecord r).records id = some q) : q.id = id := by
  by_cases hid : r.id = id
  · subst hid
    rw [records_withRecord_self] at hq
    cases hq
    rfl
  · rw [records_withRecord_of_ne _ hid] at hq
    exact h.bears id q hq

theorem Lists.held_withRecord (h : c.Lists done) (r : Record) {id : RecordId}
    (hid : id = r.id ∨ done id) :
    (c.withRecord r).records id ≠ none := by
  by_cases hr : r.id = id
  · subst hr
    simp
  · rw [records_withRecord_of_ne _ hr]
    exact h.held id (hid.resolve_left (Ne.symm hr))

/-- A list names what it named, and a new record's own list names it too. -/
theorem mem_index_withRecord (c : Contents) (r : Record) {space : String}
    {block : BitVec 64} {id : RecordId} :
    id ∈ (c.withRecord r).index space block ↔
      id ∈ c.index space block ∨ (r.version, r.decryptionCondition) = (space, block) ∧
        id = r.id := by
  simp only [Contents.withRecord]
  split
  · next hat => simp [hat]
  · next hat => simp [hat]

theorem nodup_index_withRecord {r : Record} {space : String} {block : BitVec 64}
    (hnodup : (c.index space block).Nodup) (habsent : r.id ∉ c.index space block) :
    ((c.withRecord r).index space block).Nodup := by
  simp only [Contents.withRecord]
  split
  · refine List.nodup_append.mpr ⟨hnodup, List.nodup_singleton _, ?_⟩
    rintro id hid _ hmem rfl
    exact habsent (List.mem_singleton.mp hmem ▸ hid)
  · exact hnodup

/-- A new record is on its own list alone. -/
theorem Lists.withRecord (h : c.Lists done) {r : Record} (hr : c.records r.id = none) :
    (c.withRecord r).Lists fun id => id = r.id ∨ done id where
  bears := h.bears_withRecord r
  held _ hid := h.held_withRecord r hid
  nodup space block := by
    refine nodup_index_withRecord (h.nodup space block) fun hid => ?_
    obtain ⟨-, q, hq, -⟩ := (h.mem_iff space block _).mp hid
    rw [hr] at hq
    cases hq
  mem_iff space block id := by
    rw [mem_index_withRecord, h.mem_iff]
    by_cases hid : r.id = id
    · subst hid
      simp [hr]
    · rw [records_withRecord_of_ne _ hid]
      simp [Ne.symm hid]

/-- A record that is held and on no list is put on its own. -/
theorem Lists.enlist (h : c.Lists done) {r : Record} (hr : c.records r.id = some r)
    (hnew : ¬ done r.id) :
    Lists (fun id => id = r.id ∨ done id) { c with index := (c.withRecord r).index } where
  bears := h.bears
  held id hid := by
    rcases hid with rfl | hid
    · simp [hr]
    · exact h.held id hid
  nodup space block :=
    nodup_index_withRecord (h.nodup space block) fun hid =>
      hnew ((h.mem_iff space block _).mp hid).1
  mem_iff space block id := by
    show id ∈ (c.withRecord r).index space block ↔ _
    rw [mem_index_withRecord, h.mem_iff]
    by_cases hid : id = r.id
    · subst hid
      simp [hr, hnew]
    · simp [hid]

/-- A record that could not be listed is on no list. -/
theorem Lists.tried (h : c.Lists done) {r : Record} {d : Contents} (hd : Tried c r d) :
    d.Lists done := by
  cases hd with
  | nothing => exact h
  | unlisted habsent =>
    refine ⟨h.bears_withRecord r, fun id hid => h.held_withRecord r (.inr hid), h.nodup,
      fun space block id => ?_⟩
    show id ∈ c.index space block ↔ _
    rw [h.mem_iff]
    refine and_congr_right fun hid => ?_
    have hne : r.id ≠ id := fun hrid => h.held id hid (hrid ▸ habsent)
    rw [show (c.withUnlisted r).records id = _ from records_withRecord_of_ne c hne]

theorem Lists.withValue (h : c.Lists done) (id : RecordId) (key : String) (value : Bytes) :
    (c.withValue id key value).Lists done := ⟨h.bears, h.held, h.nodup, h.mem_iff⟩

theorem Indexed.withRecord (h : c.Indexed) {r : Record} (hr : c.records r.id = none) :
    (c.withRecord r).Indexed := by
  refine indexed_iff.mpr (((indexed_iff.mp h).withRecord hr).congr fun id => ?_)
  by_cases hid : r.id = id
  · subst hid
    simp
  · rw [records_withRecord_of_ne _ hid]
    simp [Ne.symm hid]

theorem Indexed.withValue (h : c.Indexed) (id : RecordId) (key : String) (value : Bytes) :
    (c.withValue id key value).Indexed := ⟨h.bears, h.nodup, h.mem_iff⟩

theorem Indexed.ingest (h : c.Indexed) (w : StoreWrite) : (c.ingest w).Indexed := by
  refine Indexed.withValue ?_ ..
  cases hr : c.records w.record.id with
  | some r =>
    rw [adopt_of_present (by simp [hr])]
    exact h
  | none =>
    rw [adopt_of_absent hr]
    exact h.withRecord hr

/-- **Taking writes in keeps lists faithful.** -/
theorem Indexed.ingestAll (h : c.Indexed) (ws : List StoreWrite) : (c.ingestAll ws).Indexed := by
  induction ws generalizing c with
  | nil => exact h
  | cons w ws ih => exact ih (h.ingest w)

/-! ## The records of a list -/

/-- The records that are listed for a namespace and a decryption condition. -/
def listing (c : Contents) (block : BitVec 64) (space : String) : List Record :=
  (c.index space block).filterMap c.records

theorem Lists.mem_listing_iff (h : c.Lists done) {block : BitVec 64} {space : String} {r : Record} :
    r ∈ c.listing block space ↔
      done r.id ∧ c.records r.id = some r ∧
        (r.version, r.decryptionCondition) = (space, block) := by
  rw [listing, List.mem_filterMap]
  constructor
  · rintro ⟨id, hid, hr⟩
    obtain ⟨hdone, q, hq, hat⟩ := (h.mem_iff space block id).mp hid
    rw [hr] at hq
    cases hq
    obtain rfl := h.bears id r hr
    exact ⟨hdone, hr, hat⟩
  · rintro ⟨hdone, hr, hat⟩
    exact ⟨r.id, (h.mem_iff space block r.id).mpr ⟨hdone, r, hr, hat⟩, hr⟩

theorem Lists.nodup_listing (h : c.Lists done) (block : BitVec 64) (space : String) :
    (c.listing block space).Nodup := by
  refine (h.nodup space block).filterMap fun id i r hid hi => ?_
  rw [← h.bears id r hid, ← h.bears i r hi]

theorem Indexed.mem_listing_iff (h : c.Indexed) {block : BitVec 64} {space : String} {r : Record} :
    r ∈ c.listing block space ↔
      c.records r.id = some r ∧ (r.version, r.decryptionCondition) = (space, block) := by
  rw [(indexed_iff.mp h).mem_listing_iff]
  exact ⟨fun hr => hr.2, fun hr => ⟨by simp [hr.1], hr⟩⟩

theorem Indexed.nodup_listing (h : c.Indexed) (block : BitVec 64) (space : String) :
    (c.listing block space).Nodup := (indexed_iff.mp h).nodup_listing block space

end SealedStore.Contents
