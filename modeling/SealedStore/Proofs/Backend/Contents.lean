import SealedStore.Record.Identity

/-! # What a backend holds

`Contents` is what a backend holds, seen from outside: a record for each id, a value for each id and
key, and the lists of ids.  A batch of writes acts on it in one of two ways: a node that commits its
own batch keeps the values alone, a node that takes the batch in from another keeps each record as
well, unless one with its id is there (`ingest`).  Values go by the last write (`values_ingestAll`),
records by the first (`records_ingestAll`).
-/
namespace SealedStore

/-- What a backend holds. -/
@[ext] structure Contents where
  records : RecordId → Option Record
  values : RecordId → String → Option Bytes
  /-- The ids listed for a namespace and a decryption condition, oldest first. -/
  index : String → BitVec 64 → List RecordId

namespace Contents

/-- Nothing. -/
def empty : Contents := ⟨fun _ => none, fun _ _ => none, fun _ _ => []⟩

/-- The contents with a new record, listed last. -/
def withRecord (c : Contents) (r : Record) : Contents where
  records id := if r.id = id then some r else c.records id
  values := c.values
  index space block :=
    if (r.version, r.decryptionCondition) = (space, block) then c.index space block ++ [r.id]
    else c.index space block

/-- The contents with a value under an id and a key. -/
def withValue (c : Contents) (id : RecordId) (key : String) (value : Bytes) : Contents :=
  { c with values := fun i k => if (id, key) = (i, k) then some value else c.values i k }

variable (c : Contents)

@[simp] theorem records_withRecord_self (r : Record) : (c.withRecord r).records r.id = some r := by
  simp [withRecord]

theorem records_withRecord_of_ne {r : Record} {id : RecordId} (h : r.id ≠ id) :
    (c.withRecord r).records id = c.records id := by simp [withRecord, h]

@[simp] theorem values_withValue_self (id : RecordId) (key : String) (value : Bytes) :
    (c.withValue id key value).values id key = some value := by simp [withValue]

theorem values_withValue_of_ne {id i : RecordId} {key k : String} (value : Bytes)
    (h : (id, key) ≠ (i, k)) :
    (c.withValue id key value).values i k = c.values i k := if_neg h

/-- Whether two contents differ at most in the values under one id. -/
structure AgreesOff (id : RecordId) (c d : Contents) : Prop where
  records : d.records = c.records
  values : ∀ i ≠ id, d.values i = c.values i
  index : d.index = c.index

theorem AgreesOff.refl (id : RecordId) (c : Contents) : AgreesOff id c c :=
  ⟨rfl, fun _ _ => rfl, rfl⟩

theorem AgreesOff.trans {id : RecordId} {c d f : Contents} (h : AgreesOff id c d)
    (h' : AgreesOff id d f) :
    AgreesOff id c f :=
  ⟨h'.records.trans h.records, fun i hi => (h'.values i hi).trans (h.values i hi),
    h'.index.trans h.index⟩

theorem AgreesOff.withRecord {id : RecordId} {c d : Contents} (h : AgreesOff id c d) (r : Record) :
    AgreesOff id (c.withRecord r) (d.withRecord r) where
  records := by simp only [Contents.withRecord, h.records]
  values := h.values
  index := by simp only [Contents.withRecord, h.index]

theorem AgreesOff.withValue {id : RecordId} {c d : Contents} (h : AgreesOff id c d) (i : RecordId)
    (key : String) (value : Bytes) :
    AgreesOff id (c.withValue i key value) (d.withValue i key value) where
  records := h.records
  values j hj := by simp only [Contents.withValue, h.values j hj]
  index := h.index

theorem agreesOff_withValue (id : RecordId) (key : String) (value : Bytes) :
    AgreesOff id c (c.withValue id key value) := by
  refine ⟨rfl, fun i hi => ?_, rfl⟩
  funext k
  exact values_withValue_of_ne c value fun h => hi (Prod.mk.inj h).1.symm

end Contents

/-! ## Batches of writes -/

/-- The value of the last of these writes under an id and a key. -/
def StoreWrite.latest? (ws : List StoreWrite) (id : RecordId) (key : String) : Option Bytes :=
  (ws.reverse.find? fun w => w.record.id = id ∧ w.key = key).map (·.value)

namespace StoreWrite

theorem latest?_append (ws vs : List StoreWrite) (id : RecordId) (key : String) :
    latest? (ws ++ vs) id key = (latest? vs id key).or (latest? ws id key) := by
  rw [latest?, List.reverse_append, List.find?_append, Option.map_or]
  rfl

theorem latest?_singleton (w : StoreWrite) (id : RecordId) (key : String) :
    latest? [w] id key = if (w.record.id, w.key) = (id, key) then some w.value else none := by
  by_cases h : w.record.id = id ∧ w.key = key <;> simp [latest?, List.find?, h]

theorem latest?_cons (w : StoreWrite) (ws : List StoreWrite) (id : RecordId) (key : String) :
    latest? (w :: ws) id key = (latest? ws id key).or (latest? [w] id key) :=
  latest?_append [w] ws id key

theorem latest?_eq_none_iff {ws : List StoreWrite} {id : RecordId} {key : String} :
    latest? ws id key = none ↔ ∀ w ∈ ws, w.record.id = id → w.key ≠ key := by
  simp [latest?]

end StoreWrite

namespace Contents

variable (c : Contents)

/-- The contents with the values of writes, in order. -/
def withWrites (ws : List StoreWrite) : Contents :=
  ws.foldl (fun c w => c.withValue w.record.id w.key w.value) c

/-- The contents with a record, unless one with its id is there. -/
def adopt (r : Record) : Contents := if (c.records r.id).isSome then c else c.withRecord r

/-- The contents with the record of a write, unless one with its id is there, and its value. -/
def ingest (w : StoreWrite) : Contents := (c.adopt w.record).withValue w.record.id w.key w.value

/-- The contents after writes were taken in, in order. -/
def ingestAll (ws : List StoreWrite) : Contents := ws.foldl ingest c

theorem adopt_of_present {c : Contents} {r : Record} (h : c.records r.id ≠ none) : c.adopt r = c :=
  if_pos (Option.isSome_iff_ne_none.mpr h)

theorem adopt_of_absent {c : Contents} {r : Record} (h : c.records r.id = none) :
    c.adopt r = c.withRecord r := if_neg (by simp [h])

/-- The first record of an id stays. -/
theorem records_adopt (r : Record) (id : RecordId) :
    (c.adopt r).records id = (c.records id).or (if r.id = id then some r else none) := by
  cases h : c.records r.id with
  | some q =>
    rw [adopt_of_present (by simp [h])]
    split
    · next hid => simp [← hid, h]
    · simp
  | none =>
    rw [adopt_of_absent h]
    by_cases hid : r.id = id
    · simp [withRecord, ← hid, h]
    · simp [withRecord, hid]

@[simp] theorem values_adopt (r : Record) : (c.adopt r).values = c.values := by
  unfold adopt
  split <;> rfl

@[simp] theorem records_ingest (w : StoreWrite) : (c.ingest w).records =
    (c.adopt w.record).records := rfl

theorem values_ingest (w : StoreWrite) (id : RecordId) (key : String) :
    (c.ingest w).values id key = (StoreWrite.latest? [w] id key).or (c.values id key) := by
  rw [StoreWrite.latest?_singleton]
  simp only [ingest, withValue, values_adopt]
  split <;> rfl

theorem ingestAll_cons (w : StoreWrite) (ws : List StoreWrite) :
    c.ingestAll (w :: ws) = (c.ingest w).ingestAll ws := rfl

theorem ingestAll_append (ws vs : List StoreWrite) :
    c.ingestAll (ws ++ vs) = (c.ingestAll ws).ingestAll vs := List.foldl_append

theorem withWrites_append (ws vs : List StoreWrite) :
    c.withWrites (ws ++ vs) = (c.withWrites ws).withWrites vs := List.foldl_append

/-- **Values go by the last write.** -/
theorem values_ingestAll (ws : List StoreWrite) (id : RecordId) (key : String) :
    (c.ingestAll ws).values id key = (StoreWrite.latest? ws id key).or (c.values id key) := by
  induction ws generalizing c with
  | nil => rfl
  | cons w ws ih =>
    rw [ingestAll_cons, ih, values_ingest, StoreWrite.latest?_cons w ws, Option.or_assoc]

theorem values_withWrites (ws : List StoreWrite) (id : RecordId) (key : String) :
    (c.withWrites ws).values id key = (StoreWrite.latest? ws id key).or (c.values id key) := by
  induction ws generalizing c with
  | nil => rfl
  | cons w ws ih =>
    show ((c.withValue w.record.id w.key w.value).withWrites ws).values id key = _
    rw [ih, StoreWrite.latest?_cons w ws, StoreWrite.latest?_singleton, Option.or_assoc]
    simp only [withValue]
    split <;> rfl

/-- Writes elsewhere leave the values under an id alone. -/
theorem values_withWrites_of_ne {ws : List StoreWrite} {id : RecordId}
    (h : ∀ w ∈ ws, w.record.id ≠ id) :
    (c.withWrites ws).values id = c.values id := by
  funext key
  rw [values_withWrites, StoreWrite.latest?_eq_none_iff.mpr fun w hw hid => absurd hid (h w hw),
    Option.none_or]

/-- **Records go by the first write.** -/
theorem records_ingestAll (ws : List StoreWrite) (id : RecordId) :
    (c.ingestAll ws).records id =
      (c.records id).or ((ws.find? fun w => w.record.id = id).map (·.record)) := by
  induction ws generalizing c with
  | nil => simp [ingestAll]
  | cons w ws ih =>
    rw [ingestAll_cons, ih, records_ingest, records_adopt, Option.or_assoc, List.find?_cons]
    by_cases h : w.record.id = id <;> simp [h]

/-- A batch whose records are all there adds no record and changes no list. -/
theorem ingestAll_of_present {ws : List StoreWrite} {c : Contents}
    (h : ∀ w ∈ ws, c.records w.record.id ≠ none) : c.ingestAll ws = c.withWrites ws := by
  induction ws generalizing c with
  | nil => rfl
  | cons w ws ih =>
    have hw : c.ingest w = c.withValue w.record.id w.key w.value := by
      rw [ingest, adopt_of_present (h w List.mem_cons_self)]
    rw [ingestAll_cons, hw]
    exact ih fun v hv => h v (List.mem_cons_of_mem w hv)

@[simp] theorem records_withWrites (ws : List StoreWrite) :
    (c.withWrites ws).records = c.records := by
  induction ws generalizing c with
  | nil => rfl
  | cons w ws ih => exact ih (c.withValue w.record.id w.key w.value)

@[simp] theorem index_withWrites (ws : List StoreWrite) : (c.withWrites ws).index = c.index := by
  induction ws generalizing c with
  | nil => rfl
  | cons w ws ih => exact ih (c.withValue w.record.id w.key w.value)

theorem AgreesOff.ingestAll {id : RecordId} {c d : Contents} (h : AgreesOff id c d)
    (ws : List StoreWrite) : AgreesOff id (c.ingestAll ws) (d.ingestAll ws) := by
  induction ws generalizing c d with
  | nil => exact h
  | cons w ws ih =>
    have hadopt : AgreesOff id (c.adopt w.record) (d.adopt w.record) := by
      unfold adopt
      rw [h.records]
      split
      · exact h
      · exact h.withRecord w.record
    exact ih (hadopt.withValue ..)

/-! ## New records -/

/-- The contents with new records, each listed behind those before it. -/
def withRecords (rs : List Record) : Contents := rs.foldl withRecord c

theorem AgreesOff.withRecords {id : RecordId} {c d : Contents} (h : AgreesOff id c d)
    (rs : List Record) :
    AgreesOff id (c.withRecords rs) (d.withRecords rs) := by
  induction rs generalizing c d with
  | nil => exact h
  | cons r rs ih => exact ih (h.withRecord r)

theorem AgreesOff.withWrites {id : RecordId} {c d : Contents} (h : AgreesOff id c d)
    (ws : List StoreWrite) : AgreesOff id (c.withWrites ws) (d.withWrites ws) := by
  induction ws generalizing c d with
  | nil => exact h
  | cons w ws ih => exact ih (h.withValue ..)

/-- Records of which none has the id of a record that is held or of another of them. -/
structure NewTo (rs : List Record) : Prop where
  distinct : (rs.map (·.id)).Nodup
  absent : ∀ r ∈ rs, c.records r.id = none

theorem withRecords_append (rs qs : List Record) :
    c.withRecords (rs ++ qs) = (c.withRecords rs).withRecords qs := List.foldl_append

@[simp] theorem values_withRecords (rs : List Record) : (c.withRecords rs).values = c.values := by
  induction rs generalizing c with
  | nil => rfl
  | cons r rs ih => exact ih (c.withRecord r)

theorem records_withRecords_of_absent {c : Contents} {rs : List Record} {id : RecordId}
    (h : id ∉ rs.map (·.id)) : (c.withRecords rs).records id = c.records id := by
  induction rs generalizing c with
  | nil => rfl
  | cons r rs ih =>
    rw [List.map_cons, List.mem_cons, not_or] at h
    exact (ih h.2).trans (records_withRecord_of_ne c (Ne.symm h.1))

theorem records_withRecords_of_mem {c : Contents} {rs : List Record} (hrs : (rs.map (·.id)).Nodup)
    {r : Record} (hr : r ∈ rs) : (c.withRecords rs).records r.id = some r := by
  induction rs generalizing c with
  | nil => cases hr
  | cons q rs ih =>
    rw [List.map_cons, List.nodup_cons] at hrs
    rcases List.mem_cons.mp hr with rfl | hr
    · exact (records_withRecords_of_absent hrs.1).trans (c.records_withRecord_self r)
    · exact ih hrs.2 hr

theorem NewTo.nil : NewTo c [] := ⟨List.nodup_nil, nofun⟩

variable {c} in
theorem NewTo.of_agreesOff {rs : List Record} {id : RecordId} {d : Contents} (h : NewTo d rs)
    (hd : AgreesOff id c d) : NewTo c rs := ⟨h.distinct, fun r hr => hd.records ▸ h.absent r hr⟩

variable {c} in
/-- One record more. -/
theorem NewTo.snoc {rs : List Record} {r : Record} (h : NewTo c rs)
    (hr : (c.withRecords rs).records r.id = none) : NewTo c (rs ++ [r]) := by
  have hid : r.id ∉ rs.map (·.id) := by
    intro hmem
    obtain ⟨q, hq, hqr⟩ := List.mem_map.mp hmem
    rw [← hqr, records_withRecords_of_mem h.distinct hq] at hr
    cases hr
  refine ⟨?_, fun q hq => ?_⟩
  · rw [List.map_append, List.nodup_append]
    refine ⟨h.distinct, List.nodup_cons.mpr ⟨nofun, List.nodup_nil⟩, ?_⟩
    rintro i hi j hj rfl
    cases List.mem_singleton.mp hj
    exact hid hi
  · rcases List.mem_append.mp hq with hq | hq
    · exact h.absent q hq
    · cases List.mem_singleton.mp hq
      rwa [records_withRecords_of_absent hid] at hr

/-- The contents with a new record that is not listed. -/
def withUnlisted (r : Record) : Contents := { c.withRecord r with index := c.index }

/-- What is left of a record that could not be kept and listed: nothing, or the record unlisted. -/
inductive Tried (c : Contents) (r : Record) : Contents → Prop where
  | nothing : Tried c r c
  | unlisted : c.records r.id = none → Tried c r (c.withUnlisted r)

theorem Tried.of_agreesOff {r : Record} {id : RecordId} {c d f : Contents} (h : Tried d r f)
    (hd : AgreesOff id c d) : ∃ f', Tried c r f' ∧ AgreesOff id f' f := by
  cases h with
  | nothing => exact ⟨c, .nothing, hd⟩
  | unlisted habsent =>
    refine ⟨_, .unlisted (hd.records ▸ habsent), (hd.withRecord r).records, hd.values, hd.index⟩

/-- A record under an id was there or is the one that was tried. -/
theorem Tried.records {r : Record} {c d : Contents} (h : Tried c r d) (id : RecordId) :
    d.records id = c.records id ∨ c.records id = none ∧ r.id = id ∧ d.records id = some r := by
  cases h with
  | nothing => exact .inl rfl
  | unlisted habsent =>
    by_cases hid : r.id = id
    · subst hid
      exact .inr ⟨habsent, rfl, c.records_withRecord_self r⟩
    · exact .inl (c.records_withRecord_of_ne hid)

theorem Tried.eq_of_present {r : Record} {c d : Contents} (h : Tried c r d)
    (hr : c.records r.id ≠ none) :
    d = c := by
  cases h with
  | nothing => rfl
  | unlisted habsent => exact absurd habsent hr

theorem Tried.values {r : Record} {c d : Contents} (h : Tried c r d) : d.values = c.values := by
  cases h <;> rfl

/-- What a commit leaves that stopped on the way: nothing, the first of its records with one more
that was tried, or all of its records with the first of its writes. -/
inductive CommittedInPart (rs : List Record) (ws : List StoreWrite) (c : Contents) :
    Contents → Prop where
  | nothing : CommittedInPart rs ws c c
  | records {qs : List Record} {r : Record} {d : Contents} :
      qs ++ [r] <+: rs → NewTo c qs → Tried (c.withRecords qs) r d → CommittedInPart rs ws c d
  | writes {vs : List StoreWrite} :
      vs <+: ws → NewTo c rs → CommittedInPart rs ws c ((c.withRecords rs).withWrites vs)

theorem CommittedInPart.of_agreesOff {rs : List Record} {ws : List StoreWrite} {id : RecordId}
    {c d f : Contents} (h : CommittedInPart rs ws d f) (hd : AgreesOff id c d) :
    ∃ f', CommittedInPart rs ws c f' ∧ AgreesOff id f' f := by
  cases h with
  | nothing => exact ⟨c, .nothing, hd⟩
  | records hqs hnew htried =>
    obtain ⟨f', hf', hagrees⟩ := htried.of_agreesOff (hd.withRecords _)
    exact ⟨f', .records hqs (hnew.of_agreesOff hd) hf', hagrees⟩
  | writes hvs hnew =>
    exact ⟨_, .writes hvs (hnew.of_agreesOff hd), (hd.withRecords rs).withWrites _⟩

/-- A record under an id was there or is one of those that are new. -/
theorem NewTo.records {rs : List Record} {c : Contents} (h : NewTo c rs) (id : RecordId) :
    (c.withRecords rs).records id = c.records id ∨
      c.records id = none ∧ ∃ r ∈ rs, r.id = id ∧ (c.withRecords rs).records id = some r := by
  by_cases hid : id ∈ rs.map (·.id)
  · obtain ⟨r, hr, rfl⟩ := List.mem_map.mp hid
    exact .inr ⟨h.absent r hr, r, hr, rfl, records_withRecords_of_mem h.distinct hr⟩
  · exact .inl (records_withRecords_of_absent hid)

/-- A record under an id was there or is one of those committed. -/
theorem CommittedInPart.recordFrom {rs : List Record} {ws : List StoreWrite} {c d : Contents}
    (h : CommittedInPart rs ws c d) (id : RecordId) :
    d.records id = c.records id ∨ c.records id = none ∧
      ∃ r ∈ rs, r.id = id ∧ d.records id = some r := by
  cases h with
  | nothing => exact .inl rfl
  | @records qs r _ hqs hnew htried =>
    have hmem : ∀ q ∈ qs, q ∈ rs := fun q hq => hqs.subset (List.mem_append_left _ hq)
    -- the record is the one that was tried last, or one of those before it
    rcases htried.records id with hd | ⟨hnone, hid, hd⟩
    · rw [hd]
      rcases hnew.records id with hold | ⟨hnone, q, hq, hrest⟩
      · exact .inl hold
      · exact .inr ⟨hnone, q, hmem q hq, hrest⟩
    · refine .inr ⟨?_, r, hqs.subset (List.mem_append_right _ List.mem_cons_self), hid, hd⟩
      rcases hnew.records id with hold | ⟨hnone, -⟩
      · rw [← hold, hnone]
      · exact hnone
  | writes _ hnew =>
    rw [records_withWrites]
    exact hnew.records id

theorem CommittedInPart.values_of_ne {rs : List Record} {ws : List StoreWrite} {c d : Contents}
    (h : CommittedInPart rs ws c d) {id : RecordId} (hws : ∀ w ∈ ws, w.record.id ≠ id) :
    d.values id = c.values id := by
  cases h with
  | nothing => rfl
  | records _ _ htried => rw [htried.values, values_withRecords]
  | writes hvs _ =>
    rw [values_withWrites_of_ne _ fun w hw => hws w (hvs.subset hw), values_withRecords]

/-! ## Batches that are taken in only in part -/

/-- What may come of a batch that is taken in where a call may fail: of each write nothing, its
record alone, which may be left unlisted, or all. -/
inductive Absorbs : List StoreWrite → Contents → Contents → Prop where
  | nil (c : Contents) : Absorbs [] c c
  | tried {w : StoreWrite} {ws : List StoreWrite} {c d f : Contents} :
      Tried c w.record d → Absorbs ws d f → Absorbs (w :: ws) c f
  | record {w : StoreWrite} {ws : List StoreWrite} {c d : Contents} :
      Absorbs ws (c.adopt w.record) d → Absorbs (w :: ws) c d
  | all {w : StoreWrite} {ws : List StoreWrite} {c d : Contents} :
      Absorbs ws (c.ingest w) d → Absorbs (w :: ws) c d

/-- Where a record under an id may come from: it was there, or it is that of one of the writes. -/
def RecordFrom (ws : List StoreWrite) (c d : Contents) (id : RecordId) : Prop :=
  d.records id = c.records id ∨
    c.records id = none ∧ ∃ w ∈ ws, w.record.id = id ∧ d.records id = some w.record

theorem RecordFrom.tried {w : StoreWrite} {ws : List StoreWrite} {c d f : Contents} {id : RecordId}
    (htried : Tried c w.record d) (h : RecordFrom ws d f id) : RecordFrom (w :: ws) c f id := by
  rcases h with hf | ⟨hd, v, hv, hrest⟩
  · rw [RecordFrom, hf]
    rcases htried.records id with hold | ⟨hnone, hid, hd⟩
    · exact .inl hold
    · exact .inr ⟨hnone, w, List.mem_cons_self, hid, hd⟩
  · refine .inr ⟨?_, v, List.mem_cons_of_mem w hv, hrest⟩
    rcases htried.records id with hold | ⟨hnone, -⟩
    · rw [← hold, hd]
    · exact hnone

theorem RecordFrom.adopt {w : StoreWrite} {ws : List StoreWrite} {c d : Contents} {id : RecordId}
    (h : RecordFrom ws (c.adopt w.record) d id) : RecordFrom (w :: ws) c d id := by
  rcases h with hd | ⟨hc, v, hv, hrest⟩
  · rw [records_adopt] at hd
    cases hc : c.records id with
    | some q => exact .inl (by rw [hd, hc]; rfl)
    | none =>
      rw [hc, Option.none_or] at hd
      split at hd
      · next hid => exact .inr ⟨hc, w, List.mem_cons_self, hid, hd⟩
      · exact .inl (hd.trans hc.symm)
  · rw [records_adopt, Option.or_eq_none_iff] at hc
    exact .inr ⟨hc.1, v, List.mem_cons_of_mem w hv, hrest⟩

theorem Absorbs.records {ws : List StoreWrite} {c d : Contents}
    (h : Absorbs ws c d) (id : RecordId) :
    RecordFrom ws c d id := by
  induction h with
  | nil => exact .inl rfl
  | tried h _ ih => exact .tried h ih
  | record _ ih => exact ih.adopt
  | all _ ih => exact RecordFrom.adopt ih

/-- What is held stays held. -/
theorem Absorbs.records_of_present {ws : List StoreWrite} {c d : Contents} (h : Absorbs ws c d)
    {id : RecordId} {r : Record} (hr : c.records id = some r) : d.records id = some r := by
  rcases h.records id with hd | ⟨hc, -⟩
  · rw [hd, hr]
  · rw [hr] at hc
    cases hc

/-- A value that is not the old one is that of a write whose record is held. -/
theorem Absorbs.values {ws : List StoreWrite} {c d : Contents} (h : Absorbs ws c d) (id : RecordId)
    (key : String) : d.values id key = c.values id key ∨
      ∃ w ∈ ws, w.record.id = id ∧ w.key = key ∧ d.values id key = some w.value ∧
        d.records id ≠ none := by
  induction h with
  | nil => exact .inl rfl
  | tried h _ ih =>
    rcases ih with hd | ⟨v, hv, hrest⟩
    · exact .inl (by rw [hd, h.values])
    · exact .inr ⟨v, List.mem_cons_of_mem _ hv, hrest⟩
  | record _ ih =>
    rcases ih with hd | ⟨v, hv, hrest⟩
    · exact .inl (by rw [hd, values_adopt])
    · exact .inr ⟨v, List.mem_cons_of_mem _ hv, hrest⟩
  | @all w ws c d habs ih =>
    rcases ih with hd | ⟨v, hv, hrest⟩
    · -- nothing later wrote here, so the value is this write's, if it is not the old one
      rw [values_ingest, StoreWrite.latest?_singleton] at hd
      split at hd
      · next hat =>
        obtain ⟨hid, hkey⟩ := Prod.mk.inj hat
        have hheld : (c.ingest w).records w.record.id ≠ none := by simp [records_adopt]
        obtain ⟨r, hr⟩ := Option.ne_none_iff_exists'.mp hheld
        refine .inr ⟨w, List.mem_cons_self, hid, hkey, hd, ?_⟩
        rw [← hid, habs.records_of_present hr]
        simp
      · exact .inl hd
    · exact .inr ⟨v, List.mem_cons_of_mem _ hv, hrest⟩

end Contents
end SealedStore
