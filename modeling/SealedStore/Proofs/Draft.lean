import SealedStore.Draft
import SealedStore.Proofs.Engine.Commit
import SealedStore.Proofs.Record.Identity

/-! # What a draft stages

A draft is sound over contents if every record in it, staged or written under, bears its derived id
and is either staged in the draft or held under that id.  Every operation keeps drafts sound over
genuine contents, so what a draft hands to a finalization (`finalize_of_open`) are records that bear
their derived ids, and writes under records that are held once it succeeds.
-/
namespace SealedStore

open Step

/-- Every record bears the id it is held under, and that id is derived from its contents. -/
def Contents.Genuine (c : Contents) : Prop :=
  ∀ id r, c.records id = some r → r.id = id ∧ r.derivedId = id

/-- What is held is held on. -/
def Contents.Grows (c d : Contents) : Prop := ∀ id r, c.records id = some r → d.records id = some r

/-- New records leave the old ones in place. -/
theorem Contents.NewTo.grows {c : Contents} {rs : List Record} (h : c.NewTo rs) :
    c.Grows (c.withRecords rs) := by
  intro id r hr
  rcases h.records id with hold | ⟨hnone, -⟩
  · rw [hold, hr]
  · rw [hr] at hnone
    cases hnone

namespace Draft

/-- A record that bears its derived id and is staged, or held under that id. -/
structure Vouched (c : Contents) (d : Draft) (r : Record) : Prop where
  derived : r.derivedId = r.id
  present : r ∈ d.records.values ∨ c.records r.id = some r

/-- **A sound draft.** -/
structure Sound (c : Contents) (d : Draft) : Prop where
  staged : ∀ r ∈ d.records.values, r.derivedId = r.id
  writes : ∀ w ∈ d.writes, Vouched c d w.record

theorem Vouched.grow {c c' : Contents} {d : Draft} {r : Record} (h : Vouched c d r)
    (hc : c.Grows c') :
    Vouched c' d r := ⟨h.derived, h.present.imp_right (hc _ _)⟩

theorem Sound.grow {c c' : Contents} {d : Draft} (h : Sound c d) (hc : c.Grows c') : Sound c' d :=
  ⟨h.staged, fun w hw => (h.writes w hw).grow hc⟩

theorem Sound.begin (c : Contents) (tx : Transaction) : Sound c (begin tx) :=
  ⟨List.forall_mem_nil _, List.forall_mem_nil _⟩

/-- One record more. -/
theorem Sound.stage {c : Contents} {d : Draft} (h : Sound c d) {q : Record}
    (hq : q.derivedId = q.id) (hnone : d.records.find? q.id = none) :
    Sound c { d with records := d.records.insert q.id q } := by
  have hvalues := Table.values_insert_of_absent q hnone
  refine ⟨fun p hp => ?_, fun w hw => ?_⟩
  · rw [hvalues, List.mem_append, List.mem_singleton] at hp
    rcases hp with hp | rfl
    · exact h.staged p hp
    · exact hq
  · have hw := h.writes w hw
    refine ⟨hw.derived, hw.present.imp_left fun hp => ?_⟩
    show _ ∈ (d.records.insert q.id q).values
    rw [hvalues]
    exact List.mem_append_left _ hp

/-- One write more. -/
theorem Sound.write {c : Contents} {d : Draft} (h : Sound c d) {r : Record} (hr : Vouched c d r)
    (caller : Address) (key : String) (value : Bytes) :
    Sound c { d with writes := d.writes ++ [⟨r, caller, key, value⟩] } := by
  refine ⟨h.staged, fun w hw => ?_⟩
  rcases List.mem_append.mp hw with hw | hw
  · exact ⟨(h.writes w hw).derived, (h.writes w hw).present⟩
  · cases List.mem_singleton.mp hw
    exact ⟨hr.derived, hr.present⟩

/-- Once the staged records are held, so is every record that is written under, as it is written. -/
theorem Sound.records_of_written {c : Contents} {d : Draft} (h : Sound c d)
    (hnew : c.NewTo d.records.values) {w : StoreWrite} (hw : w ∈ d.writes) :
    (c.withRecords d.records.values).records w.record.id = some w.record := by
  rcases (h.writes w hw).present with hr | hr
  · exact Contents.records_withRecords_of_mem hnew.distinct hr
  · exact hnew.grows _ _ hr

variable {σ τ α : Type} {e : Engine σ τ}

/-- A prepared record bears its derived id, whatever the rest of it. -/
theorem derivedId_of_prepare {r q : Record} {tx : Transaction} (h : e.prepare r tx = .ok q) :
    q.derivedId = q.id := by
  unfold Engine.prepare at h
  obtain ⟨id, hid, h⟩ := Check.bind_ok_iff.mp h
  obtain ⟨creator, -, h⟩ := Check.bind_ok_iff.mp h
  obtain ⟨signature, -, h⟩ := Check.bind_ok_iff.mp h
  cases Check.pure_ok_iff.mp h
  unfold Record.resolveId at hid
  split at hid
  · have hid := Except.ok.inj hid
    subst hid
    have hsame :
        Record.SameAccess { r with id := r.derivedId, creationTx := some tx, signature } r :=
      ⟨rfl, rfl, rfl, rfl, rfl⟩
    exact hsame.derivedId
  · cases hid

/-! ## What calls do to a draft -/

/-- What a call other than a finalization may do to a draft of an engine that holds `c`. -/
inductive Moves (e : Engine σ τ) (c : Contents) (d : Draft) : Draft → Prop where
  | rest : Moves e c d d
  | stage {r q : Record} : e.prepare r d.tx = .ok q → d.records.find? q.id = none →
      Moves e c d { d with records := d.records.insert q.id q }
  | write {r : Record} {caller : Address} {key : String} {value : Bytes} :
      (r ∈ d.records.values ∨ ∃ id, c.records id = some r) → caller ∈ r.allowedPeekers →
      Moves e c d { d with writes := d.writes ++ [⟨r, caller, key, value⟩] }

theorem Sound.moves {c : Contents} {d f : Draft} (h : Sound c d) (hc : c.Genuine)
    (hf : Moves e c d f) :
    Sound c f := by
  cases hf with
  | rest => exact h
  | stage hq hnone => exact h.stage (derivedId_of_prepare hq) hnone
  | write hr _ =>
    refine h.write ?_ _ _ _
    rcases hr with hr | ⟨id, hr⟩
    · exact ⟨h.staged _ hr, .inl hr⟩
    · obtain ⟨rfl, hderived⟩ := hc id _ hr
      exact ⟨hderived, .inr hr⟩

variable (C : e.backend.Contract) (c : Contents)

/-- The backend holds `c`, and the draft is sound over it. -/
def Holds (x : Execution σ τ) : Prop := (Engine.view C.toView).Holds c x.engine ∧ x.draft.Sound c

variable (d : Draft)

/-- The backend holds `c`, and the draft is `d`. -/
def At (x : Execution σ τ) : Prop := (Engine.view C.toView).Holds c x.engine ∧ x.draft = d

/-- The backend holds `c`, and the draft is what a call may make of `d`. -/
def Moved (x : Execution σ τ) : Prop :=
  (Engine.view C.toView).Holds c x.engine ∧ Moves e c d x.draft

theorem At.moved {x : Execution σ τ} (h : At C c d x) : Moved C c d x := ⟨h.1, h.2 ▸ .rest⟩

/-! ## Steps of the parts -/

theorem onEngine_ensures {m : Step (Engine.State σ τ) α} {Q : α → Prop}
    (h : Ensures ((Engine.view C.toView).Holds c) m
      (fun a s => Q a ∧ (Engine.view C.toView).Holds c s) fun _ => (Engine.view C.toView).Holds c) :
    Ensures (At C c d) (onEngine m) (fun a x => Q a ∧ At C c d x) fun _ => At C c d := by
  refine .within fun x hx => ?_
  refine h.mono (fun _ hs => hs ▸ hx.1) (fun _ _ hs => ⟨hs.1, hs.2, hx.2⟩) fun _ _ hs => ⟨hs, hx.2⟩

theorem onDraft_moves {m : Step Draft α}
    (h : Ensures (· = d) m (fun _ => Moves e c d) fun _ => Moves e c d) :
    Ensures (At C c d) (onDraft m) (fun _ => Moved C c d) fun _ => Moved C c d := by
  refine .within fun x hx => ?_
  refine h.mono (fun _ hs => hs.trans hx.2) (fun _ _ hs => ⟨hx.1, hs⟩) fun _ _ hs => ⟨hx.1, hs⟩

theorem look_ensures {f : Draft → Except StoreError α} {E : StoreError → Execution σ τ → Prop}
    (hE : ∀ err x, At C c d x → E err x) :
    Ensures (At C c d) (look f) (fun a x => f d = .ok a ∧ At C c d x) E :=
  .of_cases (fun _ _ hx ha => ⟨hx.2 ▸ ha, hx⟩) fun _ err hx _ => hE err _ hx

theorem look_keeps (f : Draft → Except StoreError α) : Keeps (At C c d) (look f) :=
  (look_ensures C c d fun _ _ hx => hx).mono (fun _ hx => hx) (fun _ _ hx => hx.2) fun _ _ hx => hx

/-! ## Staging -/

section
variable {c d}

theorem stageRecord_moves {r q : Record} (hq : e.prepare r d.tx = .ok q) :
    Ensures (· = d) (stageRecord q) (fun _ => Moves e c d) fun _ => Moves e c d := by
  refine .bind .get_eq fun _ => .of_fact ?_
  rintro rfl
  refine .bind (.check_eq fun _ => .rest) fun _ => ?_
  refine .bind .get_eq fun _ => .of_fact ?_
  rintro rfl
  split
  · refine .fail ?_
    rintro _ rfl
    exact .rest
  · next habsent =>
    rintro _ rfl
    exact .stage hq (by simpa [Table.contains] using habsent)

theorem completeStore_moves {r : Record} (hr : r ∈ d.records.values ∨ ∃ id, c.records id = some r)
    (id : RecordId) (caller : Address) (key : String) (value : Bytes) :
    Ensures (· = d) (completeStore r id caller key value) (fun _ => Moves e c d)
      fun _ => Moves e c d := by
  refine .bind (Q := fun _ f => caller ∈ r.allowedPeekers ∧ f = d) ?_ fun _ =>
    .of_fact fun hpeeker => ?_
  · refine .ofExcept (fun _ _ h hf => ⟨Engine.checkPeeker_ok_iff.mp h, hf⟩) ?_
    rintro _ _ - rfl
    exact .rest
  refine .bind .get_eq fun _ => .of_fact ?_
  rintro rfl
  refine .bind (.check_eq fun _ => .rest) fun _ => ?_
  rintro _ rfl
  exact .write hr hpeeker

end

theorem init_moves (r : Record) :
    Ensures (At C c d) (init e r) (fun _ => Moved C c d) fun _ => Moved C c d := by
  refine .bind (look_ensures C c d fun _ _ hx => hx.moved) fun _ => .of_fact fun _ => ?_
  refine .bind (look_ensures C c d fun _ _ hx => hx.moved) fun q => .of_fact fun hq => ?_
  exact onDraft_moves C c d (stageRecord_moves hq)

theorem store_moves (id : RecordId) (caller : Address) (key : String) (value : Bytes) :
    Ensures (At C c d) (store e id caller key value) (fun _ => Moved C c d)
      fun _ => Moved C c d := by
  refine .bind (look_ensures C c d fun _ _ hx => hx.moved) fun found => .of_fact fun hfound => ?_
  cases found with
  | some r =>
    obtain ⟨_, -, hfound⟩ := Check.bind_ok_iff.mp hfound
    have hmem := Table.mem_values_of_find? (Except.ok.inj hfound)
    exact onDraft_moves C c d (completeStore_moves (.inl hmem) id caller key value)
  | none =>
    refine .bind (Q := fun r x => c.records id = some r ∧ At C c d x) ?_
      fun r => .of_fact fun hr => ?_
    · refine (onEngine_ensures C c d (Engine.fetch_ensures C c id)).mono (fun _ hx => hx)
        (fun _ _ hx => hx) fun _ _ hx => hx.moved
    · exact onDraft_moves C c d (completeStore_moves (.inr ⟨id, hr⟩) id caller key value)

/-! ## Reading -/

/-- Whether `P` is kept by all reads of an engine. -/
structure Reads (e : Engine σ τ) (P : Engine.State σ τ → Prop) : Prop where
  fetch : ∀ id, Keeps P (e.fetch id)
  retrieve : ∀ id caller key, Keeps P (e.retrieve id caller key)
  list : ∀ block space, Keeps P (e.list block space)

namespace Reads

/-- Whether the engine has `P` and the draft is `d`. -/
abbrev Stays (P : Engine.State σ τ → Prop) (d : Draft) (x : Execution σ τ) : Prop :=
  P x.engine ∧ x.draft = d

section
variable {P : Engine.State σ τ → Prop} {d}

theorem onEngine_stays {m : Step (Engine.State σ τ) α} (h : Keeps P m) :
    Keeps (Stays P d) (onEngine m) := by
  refine .within fun x hx => ?_
  refine h.mono (fun _ hs => hs ▸ hx.1) (fun _ _ hs => ⟨hs, hx.2⟩) fun _ _ hs => ⟨hs, hx.2⟩

theorem look_stays (f : Draft → Except StoreError α) :
    Keeps (Stays P d) (look (σ := σ) (τ := τ) f) :=
  .of_cases (fun _ _ hx _ => hx) fun _ _ hx _ => hx

variable (h : Reads e P)
include h

/-! A read of the draft reads of the engine at most, and leaves the draft as it is. -/

theorem fetch_stays (id : RecordId) : Keeps (Stays P d) (Draft.fetch e id) := by
  refine .bind (look_stays _) fun found => ?_
  cases found with
  | some r => exact .pure fun _ hx => hx
  | none => exact onEngine_stays (h.fetch id)

theorem retrieve_stays (id : RecordId) (caller : Address) (key : String) :
    Keeps (Stays P d) (Draft.retrieve e id caller key) := by
  refine .bind (look_stays _) fun isStaged => .bind (h.fetch_stays id) fun r => ?_
  refine .bind (Q := fun _ => Stays P d) (.ofExcept (fun _ _ _ hx => hx) fun _ _ _ hx => hx)
    fun _ => ?_
  refine .bind (look_stays _) fun found => ?_
  cases found with
  | some value => exact .pure fun _ hx => hx
  | none =>
    show Keeps _ (if isStaged = true then _ else _)
    split
    · exact .fail fun _ hx => hx
    · exact onEngine_stays (h.retrieve id caller key)

theorem list_stays (block : BitVec 64) (space : String) :
    Keeps (Stays P d) (Draft.list e block space) :=
  .bind (onEngine_stays (h.list block space)) fun _ => look_stays _

end

end Reads

theorem reads_holds : Reads e ((Engine.view C.toView).Holds c) where
  fetch id := (Engine.fetch_ensures C c id).mono (fun _ hs => hs) (fun _ _ hs => hs.2)
    fun _ _ hs => hs
  retrieve := Engine.retrieve_keeps C c
  list := Engine.list_keeps C c

theorem fetch_keeps (id : RecordId) : Keeps (At C c d) (fetch e id) :=
  (reads_holds C c).fetch_stays id

theorem retrieve_keeps (id : RecordId) (caller : Address) (key : String) :
    Keeps (At C c d) (retrieve e id caller key) := (reads_holds C c).retrieve_stays id caller key

theorem list_keeps (block : BitVec 64) (space : String) : Keeps (At C c d) (list e block space) :=
  (reads_holds C c).list_stays block space

/-! ## Finalizing -/

/-- A draft without records and writes. -/
def emptied (d : Draft) : Draft := { d with records := .empty, writes := [], finalized := true }

theorem sound_emptied (c : Contents) (d : Draft) : Sound c d.emptied :=
  ⟨List.forall_mem_nil _, List.forall_mem_nil _⟩

theorem take_of_open {d : Draft} (h : d.finalized = false) :
    take d = (.ok (d.records.values, d.writes), d.emptied) := by
  simp [take, bind_apply, checkOpen, h, emptied]

theorem take_of_finalized {d : Draft} (h : d.finalized = true) :
    take d = (.error .alreadyFinalized, d) := by
  simp [take, bind_apply, checkOpen, h]

/-- **A draft is finalized by finalizing its transaction, its records and its writes**, and is empty
afterwards, whether or not that succeeds. -/
theorem finalize_of_open {x : Execution σ τ} (h : x.draft.finalized = false) :
    finalize e x =
      let committed := e.finalize x.draft.tx x.draft.records.values x.draft.writes x.engine
      (committed.1, ⟨committed.2, x.draft.emptied⟩) := by
  simp [finalize, bind_apply, onDraft, onEngine, look, take_of_open h, emptied]

theorem engine_finalize_of_open {x : Execution σ τ} (h : x.draft.finalized = false) :
    ((finalize e).after x).engine =
      (e.finalize x.draft.tx x.draft.records.values x.draft.writes).after x.engine := by
  rw [after, finalize_of_open h]
  rfl

theorem outcome_finalize_of_open {x : Execution σ τ} (h : x.draft.finalized = false) :
    (finalize e).outcome x =
      (e.finalize x.draft.tx x.draft.records.values x.draft.writes).outcome x.engine := by
  rw [outcome, finalize_of_open h]
  rfl

theorem finalize_of_finalized {x : Execution σ τ} (h : x.draft.finalized = true) :
    finalize e x = (.error .alreadyFinalized, x) := by
  simp [finalize, bind_apply, onDraft, take_of_finalized h]

/-- A draft is left alone or emptied. -/
theorem draft_finalize (x : Execution σ τ) :
    ((finalize e).after x).draft = x.draft ∨ ((finalize e).after x).draft = x.draft.emptied := by
  cases hfinal : x.draft.finalized with
  | true => exact .inl (by rw [after, finalize_of_finalized hfinal])
  | false => exact .inr (by rw [after, finalize_of_open hfinal])

end Draft
end SealedStore
