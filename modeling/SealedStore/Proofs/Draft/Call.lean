import SealedStore.Proofs.Draft

/-! # Calls on a draft, step by step

Calls on one draft may run at once.  Each is a sequence of steps, and one call may be overtaken
between two of its steps by any other, also by a finalization.  `Race.step` is one step of a call:
those that look at the draft or change it are made under its lock, the others outside of it.  A call
that is not overtaken does what the operation does that it is a call of (`Race.alone_init`,
`Race.alone_store`, `Race.alone_finalize`).

What calls have put into the draft and taken from it is told by how they returned
(`Race.Event.of?`).  What a step can do is said once (`Race.Acts`, `Race.step_acts`); the
rest is read off that.
-/
namespace SealedStore.Race

open Step Draft

variable {σ τ : Type}

/-! ## Calls in steps -/

/-- A call that stages or finalizes. -/
inductive Request where
  | init (record : Record)
  | store (id : RecordId) (caller : Address) (key : String) (value : Bytes)
  | finalize
deriving DecidableEq

/-- How far a call has come. -/
inductive Progress where
  | begun
  /-- The draft was open. -/
  | admitted
  /-- The record that is to be written under is not staged. -/
  | unstaged
  /-- The record that is to be written under. -/
  | found (record : Record)
  /-- What a finalization took from the draft, and how its commit ended if it has. -/
  | taken (records : List Record) (writes : List StoreWrite)
      (outcome : Option (Except StoreError Unit))
  /-- The call has returned: the record that it staged or wrote under, or why it did not. -/
  | returned (result : Except StoreError Record)

variable (e : Engine σ τ)

/-- The last step of an initialization: the record is prepared and staged. -/
def stage (r : Record) : Step (Execution σ τ) Record := do
  let r ← look fun d => e.prepare r d.tx
  onDraft (stageRecord r)

/-- The next step of a call; a call that has returned makes none. -/
def advance : Request → Progress → Step (Execution σ τ) Progress
  | .init _, .begun => do
    look checkOpen
    pure .admitted
  | .init r, .admitted => do pure (.returned (.ok (← stage e r)))
  | .store .., .begun => do
    look checkOpen
    pure .admitted
  | .store id .., .admitted => do
    match ← look fun d => .ok (d.records.find? id) with
    | some r => pure (.found r)
    | none => pure .unstaged
  | .store id .., .unstaged => do pure (.found (← onEngine (e.fetch id)))
  | .store id caller key value, .found r => do
    pure (.returned (.ok (← onDraft (completeStore r id caller key value))))
  | .finalize, .begun => do
    let batch ← onDraft take
    pure (.taken batch.1 batch.2 none)
  | .finalize, .taken records writes none => do
    let tx ← look fun d => .ok d.tx
    pure (.taken records writes (some (← (onEngine (e.finalize tx records writes)).attempt)))
  | _, p => pure p

/-- Where a step has brought a call.  An error ends it. -/
def settle (y : Except StoreError Progress × Execution σ τ) : Progress × Execution σ τ :=
  (match y.1 with | .ok p => p | .error err => .returned (.error err), y.2)

/-- One step of a call. -/
def step (request : Request) (p : Progress) (x : Execution σ τ) : Progress × Execution σ τ :=
  settle (advance e request p x)

/-! ### What each step does -/

variable {e} (x : Execution σ τ)

theorem settle_returning (m : Step (Execution σ τ) Record) :
    settle ((do pure (Progress.returned (.ok (← m)))) x) =
      (.returned (m.outcome x), m.after x) := by
  rw [bind_apply, outcome, after]
  cases m x with
  | mk out y => cases out <;> rfl

theorem step_returned (request : Request) (result : Except StoreError Record) :
    step e request (.returned result) x = (.returned result, x) := by cases request <;> rfl

/-- A staging call is let in if the draft is open. -/
theorem settle_admit : settle ((do look checkOpen; pure Progress.admitted) x) =
    (if x.draft.finalized then .returned (.error .alreadyFinalized) else .admitted, x) := by
  rw [bind_apply, look, checkOpen]
  cases x.draft.finalized <;> rfl

theorem step_init_admitted (r : Record) : step e (.init r) .admitted x =
    (.returned ((stage e r).outcome x), (stage e r).after x) := settle_returning x _

theorem step_store_admitted (id : RecordId) (caller : Address) (key : String) (value : Bytes) :
    step e (.store id caller key value) .admitted x =
      (((x.draft.records.find? id).map .found).getD .unstaged, x) := by
  show settle (bind (look _) _ x) = _
  rw [bind_apply, look]
  cases x.draft.records.find? id <;> rfl

theorem step_store_unstaged (id : RecordId) (caller : Address) (key : String) (value : Bytes) :
    step e (.store id caller key value) .unstaged x =
      (match (e.fetch id).outcome x.engine with
        | .ok r => .found r
        | .error err => .returned (.error err),
        { x with engine := (e.fetch id).after x.engine }) := by
  show settle (bind (onEngine _) _ x) = _
  rw [bind_apply, onEngine, within_apply, outcome, after]
  cases e.fetch id x.engine with
  | mk out y => cases out <;> rfl

theorem step_store_found (id : RecordId) (caller : Address) (key : String)
    (value : Bytes) (r : Record) :
    step e (.store id caller key value) (.found r) x =
      (.returned ((completeStore r id caller key value).outcome x.draft),
        { x with draft := (completeStore r id caller key value).after x.draft }) :=
  settle_returning x _

theorem step_finalize_of_open (h : x.draft.finalized = false) : step e .finalize .begun x =
    (.taken x.draft.records.values x.draft.writes none, { x with draft := x.draft.emptied }) := by
  show settle (bind (onDraft take) _ x) = _
  rw [bind_apply, onDraft, within_apply, take_of_open h]
  rfl

theorem step_finalize_of_finalized (h : x.draft.finalized = true) : step e .finalize .begun x =
    (.returned (.error .alreadyFinalized), x) := by
  show settle (bind (onDraft take) _ x) = _
  rw [bind_apply, onDraft, within_apply, take_of_finalized h]
  rfl

/-! ### Calls that are not overtaken -/

/-- Some steps of a call, one right after the other. -/
def alone (e : Engine σ τ) (request : Request) :
    Nat → Progress × Execution σ τ → Progress × Execution σ τ
  | 0, c => c
  | k + 1, c => alone e request k (step e request c.1 c.2)

theorem alone_init (r : Record) : alone e (.init r) 2 (.begun, x) =
    (.returned ((Draft.init e r).outcome x), (Draft.init e r).after x) := by
  have hinit : Draft.init e r = (do look checkOpen; stage e r) := rfl
  have hbegun : step e (.init r) .begun x = _ := settle_admit x
  rw [alone, alone, alone, hbegun, hinit, outcome, after, bind_apply, look, checkOpen]
  cases x.draft.finalized with
  | true => rfl
  | false => exact step_init_admitted x r

section
variable (id : RecordId) (caller : Address) (key : String) (value : Bytes)

theorem store_of_finalized (h : x.draft.finalized = true) :
    Draft.store e id caller key value x = (.error .alreadyFinalized, x) :=
  bind_of_error (show (beginStore id x.draft, x) = _ by rw [beginStore, checkOpen, h]; rfl)

theorem store_of_open (h : x.draft.finalized = false) : Draft.store e id caller key value x =
    match x.draft.records.find? id with
    | some r => onDraft (completeStore r id caller key value) x
    | none => (do onDraft (completeStore (← onEngine (e.fetch id)) id caller key value)) x := by
  have hbegin : beginStore id x.draft = .ok (x.draft.records.find? id) := by
    rw [beginStore, checkOpen, h]
    rfl
  rw [Draft.store, bind_of_ok (show look (beginStore id) x = _ from congrArg (·, x) hbegin)]
  cases x.draft.records.find? id <;> rfl

theorem alone_store : alone e (.store id caller key value) 4 (.begun, x) =
    (.returned ((Draft.store e id caller key value).outcome x),
      (Draft.store e id caller key value).after x) := by
  have hbegun : step e (.store id caller key value) .begun x = _ := settle_admit x
  rw [alone, hbegun, outcome, after]
  cases hfinal : x.draft.finalized with
  | true =>
    rw [store_of_finalized x _ _ _ _ hfinal]
    simp only [reduceIte, alone, step_returned]
  | false =>
    rw [store_of_open x _ _ _ _ hfinal]
    simp only [Bool.false_eq_true, reduceIte, alone, step_store_admitted]
    cases x.draft.records.find? id with
    | some r =>
      rw [Option.map_some, Option.getD_some, step_store_found, step_returned]
      rfl
    | none =>
      rw [Option.map_none, Option.getD_none, step_store_unstaged, outcome, after]
      cases hfetch : e.fetch id x.engine with
      | mk out y =>
        have hlook : onEngine (e.fetch id) x = (out, { x with engine := y }) := by
          rw [onEngine, within_apply, hfetch]
        cases out with
        | ok r =>
          simp only [bind_of_ok hlook, step_store_found]
          rfl
        | error err => simp only [bind_of_error hlook, step_returned]

end

theorem alone_finalize (h : x.draft.finalized = false) : alone e .finalize 2 (.begun, x) =
    (.taken x.draft.records.values x.draft.writes (some ((Draft.finalize e).outcome x)),
      (Draft.finalize e).after x) := by
  rw [alone, alone, alone, step_finalize_of_open x h, outcome, after, finalize_of_open h]
  rfl

/-! ## What a step can do -/

/-- What a call put into the draft, or took from it. -/
inductive Event where
  | staged (call : Nat) (record : Record)
  | wrote (call : Nat) (write : StoreWrite)
  | took (call : Nat) (records : List Record) (writes : List StoreWrite)

namespace Event

/-- The number of the call. -/
def call : Event → Nat
  | staged n _ => n
  | wrote n _ => n
  | took n _ _ => n

/-- What is told of a call by how far it has come: that it put something into the draft if it has
returned a record, and that it took what was staged if it commits that. -/
def of? (n : Nat) : Request → Progress → Option Event
  | .init _, .returned (.ok r) => some (staged n r)
  | .store _ caller key value, .returned (.ok r) => some (wrote n ⟨r, caller, key, value⟩)
  | .finalize, .taken records writes _ => some (took n records writes)
  | _, _ => none

/-- What a step brings to light that takes a call from `p` to `q`. -/
def news (n : Nat) (request : Request) (p q : Progress) : List Event :=
  match of? n request p with
  | some _ => []
  | none => (of? n request q).toList

/-- The records that were staged, in order. -/
def records (log : List Event) : List Record :=
  log.filterMap fun | staged _ r => some r | _ => none

/-- The values that were written, in order. -/
def writes (log : List Event) : List StoreWrite :=
  log.filterMap fun | wrote _ w => some w | _ => none

theorem records_append (log more : List Event) :
    records (log ++ more) = records log ++ records more :=
  List.filterMap_append

theorem writes_append (log more : List Event) : writes (log ++ more) = writes log ++ writes more :=
  List.filterMap_append

theorem call_of? {n : Nat} {request : Request} {p : Progress} {event : Event}
    (h : of? n request p = some event) : event.call = n := by
  unfold of? at h
  split at h <;> cases h <;> rfl

theorem news_of_none {n : Nat} {request : Request} {p q : Progress} (hp : of? n request p = none)
    (hq : of? n request q = none) : news n request p q = [] := by
  rw [news, hp, hq]
  rfl

theorem news_of_same {n : Nat} {request : Request} {p q : Progress}
    (h : of? n request q = of? n request p) : news n request p q = [] := by
  rw [news, h]
  cases of? n request p <;> rfl

end Event

/-- **What a step of a call does** to its progress and to the draft. -/
inductive Acts : Request → Progress → Draft → Progress → Draft → Prop where
  | idle {request : Request} {p : Progress} {d : Draft} : Acts request p d p d
  /-- A staging call goes on, or is refused. -/
  | passes {request : Request} {p q : Progress} {d : Draft} : request ≠ .finalize →
      (∀ n, Event.of? n request p = none) → (∀ n, Event.of? n request q = none) →
        Acts request p d q d
  | stages {r q : Record} {d : Draft} : d.finalized = false → d.records.find? q.id = none →
      Acts (.init r) .admitted d (.returned (.ok q)) { d with records := d.records.insert q.id q }
  | writes {id : RecordId} {caller : Address} {key : String} {value : Bytes}
      {r : Record} {d : Draft} :
      d.finalized = false → Acts (.store id caller key value) (.found r) d (.returned (.ok r))
        { d with writes := d.writes ++ [⟨r, caller, key, value⟩] }
  | takes {d : Draft} : d.finalized = false →
      Acts .finalize .begun d (.taken d.records.values d.writes none) d.emptied
  | refuses {d : Draft} : d.finalized = true →
      Acts .finalize .begun d (.returned (.error .alreadyFinalized)) d
  | commits {records : List Record} {writes : List StoreWrite}
      {out : Except StoreError Unit} {d : Draft} :
      Acts .finalize (.taken records writes none) d (.taken records writes (some out)) d

theorem stageRecord_cases (r : Record) (d : Draft) :
    (∃ err, stageRecord r d = (.error err, d)) ∨
      (d.finalized = false ∧ d.records.find? r.id = none ∧
        stageRecord r d = (.ok r, { d with records := d.records.insert r.id r })) := by
  cases hfinal : d.finalized with
  | true => exact .inl ⟨.alreadyFinalized, by simp [stageRecord, bind_apply, checkOpen, hfinal]⟩
  | false =>
    cases hfind : d.records.find? r.id with
    | some q =>
      exact .inl ⟨.recordAlreadyPresent r.id,
        by simp [stageRecord, bind_apply, checkOpen, hfinal, Table.contains, hfind]⟩
    | none =>
      exact .inr
        ⟨rfl, rfl, by simp [stageRecord, bind_apply, checkOpen, hfinal, Table.contains, hfind]⟩

theorem completeStore_cases (r : Record) (id : RecordId) (caller : Address)
    (key : String) (value : Bytes)
    (d : Draft) : (∃ err, completeStore r id caller key value d = (.error err, d)) ∨
      (d.finalized = false ∧ completeStore r id caller key value d =
        (.ok r, { d with writes := d.writes ++ [⟨r, caller, key, value⟩] })) := by
  cases hpeeker : Engine.checkPeeker r id caller .store with
  | error err => exact .inl ⟨err, by simp [completeStore, bind_apply, hpeeker]⟩
  | ok _ =>
    cases hfinal : d.finalized with
    | true =>
      exact .inl ⟨.alreadyFinalized,
        by simp [completeStore, bind_apply, hpeeker, checkOpen, hfinal]⟩
    | false => exact .inr ⟨rfl, by simp [completeStore, bind_apply, hpeeker, checkOpen, hfinal]⟩

theorem step_init_acts (r : Record) (p : Progress) : Acts (.init r) p x.draft
    (step e (.init r) p x).1 (step e (.init r) p x).2.draft := by
  cases p with
  | begun =>
    rw [show step e (.init r) .begun x = _ from settle_admit x]
    cases x.draft.finalized <;> exact .passes nofun (fun _ => rfl) fun _ => rfl
  | admitted =>
    rw [step_init_admitted, outcome, after]
    cases hprepare : e.prepare r x.draft.tx with
    | error err =>
      rw [stage, bind_of_error (show look _ x = _ from congrArg (·, x) hprepare)]
      exact .passes nofun (fun _ => rfl) fun _ => rfl
    | ok q =>
      rw [stage, bind_of_ok (show look _ x = _ from congrArg (·, x) hprepare),
        onDraft, within_apply]
      rcases stageRecord_cases q x.draft with ⟨err, hout⟩ | ⟨hopen, hnew, hout⟩
      · rw [hout]
        exact .passes nofun (fun _ => rfl) fun _ => rfl
      · rw [hout]
        exact .stages hopen hnew
  | unstaged | found _ | taken _ _ _ | returned _ => exact .idle

theorem step_store_acts (id : RecordId) (caller : Address) (key : String)
    (value : Bytes) (p : Progress) :
    Acts (.store id caller key value) p x.draft (step e (.store id caller key value) p x).1
      (step e (.store id caller key value) p x).2.draft := by
  cases p with
  | begun =>
    rw [show step e (.store id caller key value) .begun x = _ from settle_admit x]
    cases x.draft.finalized <;> exact .passes nofun (fun _ => rfl) fun _ => rfl
  | admitted =>
    rw [step_store_admitted]
    cases x.draft.records.find? id <;> exact .passes nofun (fun _ => rfl) fun _ => rfl
  | unstaged =>
    rw [step_store_unstaged]
    cases (e.fetch id).outcome x.engine <;> exact .passes nofun (fun _ => rfl) fun _ => rfl
  | found r =>
    rw [step_store_found, outcome, after]
    rcases completeStore_cases r id caller key value x.draft with ⟨err, hout⟩ | ⟨hopen, hout⟩
    · rw [hout]
      exact .passes nofun (fun _ => rfl) fun _ => rfl
    · rw [hout]
      exact .writes hopen
  | taken _ _ _ | returned _ => exact .idle

theorem step_finalize_acts (p : Progress) : Acts .finalize p x.draft
    (step e .finalize p x).1 (step e .finalize p x).2.draft := by
  cases p with
  | begun =>
    cases hfinal : x.draft.finalized with
    | true =>
      rw [step_finalize_of_finalized x hfinal]
      exact .refuses hfinal
    | false =>
      rw [step_finalize_of_open x hfinal]
      exact .takes hfinal
  | taken records writes out =>
    cases out with
    | none => exact .commits
    | some _ => exact .idle
  | admitted | unstaged | found _ | returned _ => exact .idle

/-- **Every step does one of these things.** -/
theorem step_acts (request : Request) (p : Progress) :
    Acts request p x.draft (step e request p x).1 (step e request p x).2.draft := by
  cases request with
  | init r => exact step_init_acts x r p
  | store id caller key value => exact step_store_acts x id caller key value p
  | finalize => exact step_finalize_acts x p

end SealedStore.Race
