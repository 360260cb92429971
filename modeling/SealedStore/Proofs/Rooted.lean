import SealedStore.Proofs.Session

/-! # Nothing without a record

A value is kept under a record that is held, save for the outbox's own values, and a list names
records that are held (`Contents.Rooted`).  Every run from an empty backend keeps it so,
whatever fails in it: a record comes before its list and its values, and a commit or a message
that stops half-way stops behind it.  A draft stages each record under the id that the record
bears (`Draft.Keyed`).

`Draft.Arises` says of contents and a draft that some run leads to them; it stands in for the run
where only what is left of it matters.
-/
namespace SealedStore

open Step

/-! ## Rooted contents -/

namespace Contents

/-- **Rooted contents**: no value and no place on a list without a record, the
outbox's values apart. -/
structure Rooted (c : Contents) : Prop where
  values : ∀ id key, id ≠ Record.outbox.id → c.values id key ≠ none → c.records id ≠ none
  index : ∀ space block, ∀ id ∈ c.index space block, c.records id ≠ none

theorem rooted_empty : empty.Rooted := ⟨fun _ _ _ h => absurd rfl h, nofun⟩

theorem records_withRecord_ne_none {c : Contents} (r : Record) {id : RecordId}
    (h : r.id = id ∨ c.records id ≠ none) : (c.withRecord r).records id ≠ none := by
  by_cases hid : r.id = id
  · subst hid
    simp
  · rw [records_withRecord_of_ne c hid]
    exact h.resolve_left hid

namespace Rooted

variable {c d : Contents}

/-- What was held is held on, and what is new is under records. -/
theorem extend (h : c.Rooted) (hrecords : ∀ id, c.records id ≠ none → d.records id ≠ none)
    (hvalues : ∀ id ≠ Record.outbox.id, d.values id = c.values id ∨ d.records id ≠ none)
    (hindex : ∀ space block, ∀ id ∈ d.index space block, id ∈ c.index space block ∨
      d.records id ≠ none) :
    d.Rooted where
  values id key hid hvalue := by
    rcases hvalues id hid with hold | hheld
    · rw [hold] at hvalue
      exact hrecords id (h.values id key hid hvalue)
    · exact hheld
  index space block id hid := by
    rcases hindex space block id hid with hold | hheld
    · exact hrecords id (h.index space block id hold)
    · exact hheld

theorem agreesOff (h : c.Rooted) (hd : AgreesOff Record.outbox.id c d) : d.Rooted :=
  h.extend (fun _ hid => hd.records ▸ hid) (fun id hid => .inl (hd.values id hid))
    fun _ _ _ hid => .inl (hd.index ▸ hid)

theorem withRecord (h : c.Rooted) (r : Record) : (c.withRecord r).Rooted := by
  refine h.extend (fun id hid => records_withRecord_ne_none r (.inr hid)) (fun _ _ => .inl rfl)
    fun space block id hid => ?_
  simp only [Contents.withRecord] at hid
  split at hid
  · rcases List.mem_append.mp hid with hid | hid
    · exact .inl hid
    · exact .inr (records_withRecord_ne_none r (.inl (List.mem_singleton.mp hid).symm))
  · exact .inl hid

theorem withValue (h : c.Rooted) {id : RecordId} (hid : c.records id ≠ none) (key : String)
    (value : Bytes) : (c.withValue id key value).Rooted := by
  refine h.extend (fun _ hi => hi) (fun i _ => ?_) fun _ _ _ hi => .inl hi
  by_cases hi : i = id
  · exact .inr (hi ▸ hid)
  · exact .inl ((agreesOff_withValue c id key value).values i hi)

theorem tried (h : c.Rooted) {r : Record} (hd : Tried c r d) : d.Rooted := by
  cases hd with
  | nothing => exact h
  | unlisted =>
    exact h.extend (fun id hid => records_withRecord_ne_none r (.inr hid)) (fun _ _ => .inl rfl)
      fun _ _ _ hid => .inl hid

theorem withRecords (h : c.Rooted) (rs : List Record) : (c.withRecords rs).Rooted := by
  induction rs generalizing c with
  | nil => exact h
  | cons r rs ih => exact ih (h.withRecord r)

theorem withWrites (h : c.Rooted) {ws : List StoreWrite}
    (hws : ∀ w ∈ ws, c.records w.record.id ≠ none) :
    (c.withWrites ws).Rooted := by
  induction ws generalizing c with
  | nil => exact h
  | cons w ws ih =>
    have hw := h.withValue (hws w List.mem_cons_self) w.key w.value
    exact ih hw fun v hv => hws v (List.mem_cons_of_mem w hv)

/-- A commit that stops keeps no value without its record, since the records come first. -/
theorem committedInPart (h : c.Rooted) {rs : List Record} {ws : List StoreWrite}
    (hws : c.NewTo rs → ∀ w ∈ ws, (c.withRecords rs).records w.record.id ≠ none)
    (hd : CommittedInPart rs ws c d) : d.Rooted := by
  cases hd with
  | nothing => exact h
  | records _ _ htried => exact (h.withRecords _).tried htried
  | writes hvs hnew => exact (h.withRecords rs).withWrites fun w hw => hws hnew w (hvs.subset hw)

theorem adopt (h : c.Rooted) (r : Record) : (c.adopt r).Rooted := by
  unfold Contents.adopt
  split
  · exact h
  · exact h.withRecord r

theorem ingest (h : c.Rooted) (w : StoreWrite) : (c.ingest w).Rooted := by
  refine (h.adopt w.record).withValue ?_ w.key w.value
  simp [records_adopt]

theorem absorbs (h : c.Rooted) {ws : List StoreWrite} (hd : Absorbs ws c d) : d.Rooted := by
  induction hd with
  | nil => exact h
  | tried htried _ ih => exact ih (h.tried htried)
  | record _ ih => exact ih (h.adopt _)
  | all _ ih => exact ih (h.ingest _)

end Rooted

end Contents

/-! ## Drafts -/

namespace Draft

/-- Whether each record is staged under the id it bears. -/
def Keyed (d : Draft) : Prop := ∀ entry ∈ d.records.entries, entry.2.id = entry.1

theorem keyed_begin (tx : Transaction) : (begin tx).Keyed := List.forall_mem_nil _

theorem keyed_emptied (d : Draft) : d.emptied.Keyed := List.forall_mem_nil _

theorem Keyed.stage {d : Draft} (h : d.Keyed) {r : Record} (hnone : d.records.find? r.id = none) :
    Keyed { d with records := d.records.insert r.id r } := by
  intro entry hentry
  rw [show (d.records.insert r.id r).entries = d.records.entries ++ [(r.id, r)] from
    Table.put_of_absent r hnone] at hentry
  rcases List.mem_append.mp hentry with hentry | hentry
  · exact h entry hentry
  · cases List.mem_singleton.mp hentry
    rfl

theorem Keyed.moves {σ τ : Type} {e : Engine σ τ} {c : Contents} {d f : Draft} (h : d.Keyed)
    (hf : d.Moves e c f) : f.Keyed := by
  cases hf with
  | rest => exact h
  | stage _ hnone => exact h.stage hnone
  | write => exact h

theorem Keyed.id_eq {d : Draft} (h : d.Keyed) {id : RecordId} {r : Record}
    (hr : d.records.find? id = some r) : r.id = id := h (id, r) (Table.mem_of_look hr)

/-- An id without a staged record is that of none. -/
theorem Keyed.not_mem {d : Draft} (h : d.Keyed) {id : RecordId} (hid : d.records.find? id = none) :
    id ∉ d.records.values.map (·.id) := by
  intro hmem
  obtain ⟨r, hr, hrid⟩ := List.mem_map.mp hmem
  obtain ⟨entry, hentry, rfl⟩ := List.mem_map.mp hr
  exact Table.look_eq_none_iff.mp hid entry hentry ((h entry hentry).symm.trans hrid)

end Draft

/-! ## Sessions -/

namespace Session

variable {σ τ : Type} {e : Engine σ τ}

/-- What is written under is held once the records of the draft are, so a commit
keeps contents rooted. -/
theorem stable_rooted : Stable e (fun _ => True) Contents.Rooted Draft.Keyed where
  begin := Draft.keyed_begin
  emptied := Draft.keyed_emptied
  moves _ hd hf := hd.moves hf
  committed hc _ hsound hf := by
    refine hc.committedInPart (fun hnew w hw => ?_) hf
    rw [hsound.records_of_written hnew hw]
    exact Option.some_ne_none _
  stored key value hc hheld := hc.withValue hheld key value
  absorbed _ hc hd := hc.absorbs hd
  mail hc hd := hc.agreesOff hd

/-- **Every run leaves contents rooted and drafts keyed.** -/
theorem Reachable.rooted {C : e.backend.Contract} {s : Session σ τ} (h : Reachable C s) :
    Has Contents.Rooted Draft.Keyed C s := stable_rooted.reachable Contents.rooted_empty h

end Session

/-! ## Contents and drafts that runs lead to -/

/-- Whether a run of some node, from an empty backend and whatever fails in it, leads to these
contents and this draft. -/
def Draft.Arises (c : Contents) (d : Draft) : Prop :=
  ∃ (σ τ : Type) (e : Engine σ τ) (C : e.backend.Contract) (s : Session σ τ),
    s.Reachable C ∧ C.see s.engine.storage = c ∧ d ∈ s.drafts

namespace Draft.Arises

variable {c : Contents} {d : Draft} (h : Arises c d)
include h

theorem genuine : c.Genuine := by
  obtain ⟨_, _, _, _, s, hs, rfl, -⟩ := h
  exact hs.sound.genuine

theorem sound : d.Sound c := by
  obtain ⟨_, _, _, _, s, hs, rfl, hd⟩ := h
  exact hs.sound.drafts d hd

theorem rooted : c.Rooted := by
  obtain ⟨_, _, _, _, s, hs, rfl, -⟩ := h
  exact hs.rooted.held

theorem keyed : d.Keyed := by
  obtain ⟨_, _, _, _, s, hs, -, hd⟩ := h
  exact hs.rooted.drafts d hd

end Draft.Arises

/-- Whether an execution stands on contents and a draft that a run leads to. -/
def Draft.Reached {σ τ : Type} {e : Engine σ τ} (C : e.backend.Contract) (x : Execution σ τ) :
    Prop :=
  C.Valid x.engine.storage ∧ Arises (C.see x.engine.storage) x.draft

theorem Session.Reachable.reached {σ τ : Type} {e : Engine σ τ}
    {C : e.backend.Contract} {s : Session σ τ}
    (h : s.Reachable C) {d : Draft} (hd : d ∈ s.drafts) : Draft.Reached C ⟨s.engine, d⟩ :=
  ⟨h.sound.valid, σ, τ, e, C, s, h, rfl, hd⟩

end SealedStore
