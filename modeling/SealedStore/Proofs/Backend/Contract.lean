import SealedStore.Backend.Memory
import SealedStore.Proofs.Backend.Contents
import SealedStore.Proofs.Step

/-! # What a backend promises

The engine sees a backend through its operations alone, so what is proved of the engine is proved
from what these promise.  A `Backend.Contract` reads the contents off a backend's states and says of
each operation that it takes effect as a whole or not at all, save that a record may be kept and
then not be listed; any operation may fail.  `Contract.Reliable` adds that none fails without the
reason that the contents give.

The mempool record is the backend's own: what is kept under it is no part of the contents, and
nothing is promised of values that are stored under it.

`Memory.contract` is the contract of the backend in memory, `Contract.guarded` that of a backend
whose calls may be refused.
-/
namespace SealedStore

variable {σ ω : Type}

/-- What is seen of a backend's states, and the states that are spoken of. -/
structure Contents.View (σ : Type) where
  see : σ → Contents
  Valid : σ → Prop

/-- A state that is spoken of and holds just these contents. -/
def Contents.View.Holds (V : Contents.View σ) (c : Contents) (s : σ) : Prop :=
  V.Valid s ∧ V.see s = c

/-- What is seen of a larger state is what is seen of its part. -/
def Contents.View.comap {ρ : Type} (V : Contents.View σ) (part : ρ → σ) : Contents.View ρ :=
  ⟨V.see ∘ part, V.Valid ∘ part⟩

open Step

/-- **The contract of a backend.** -/
structure Backend.Contract (b : Backend σ) extends Contents.View σ where
  start : ∀ c, Keeps (toView.Holds c) b.start
  stop : ∀ c, Keeps (toView.Holds c) b.stop
  /-- A record is kept only where none with its id is, and that one is present is
  never said in error. -/
  init : ∀ c r, Ensures (toView.Holds c) (b.init r)
    (fun _ s => c.records r.id = none ∧ toView.Holds (c.withRecord r) s)
    fun e s => ∃ d, c.Tried r d ∧ (e.isAlreadyPresent = true → c.records r.id ≠ none) ∧
      toView.Holds d s
  store : ∀ c r key value, r.id ≠ Record.mempool.id → Ensures (toView.Holds c) (b.store r key value)
    (fun q s => q = r ∧ toView.Holds (c.withValue r.id key value) s) fun _ => toView.Holds c
  /-- That a record or a key is unknown is never said in error. -/
  retrieve : ∀ c r key, Ensures (toView.Holds c) (b.retrieve r key)
    (fun v s => (r.id ≠ Record.mempool.id → c.values r.id key = some v) ∧ toView.Holds c s)
    fun e s => (r.id ≠ Record.mempool.id → e.isNotFound = true → c.values r.id key = none) ∧
      toView.Holds c s
  fetch : ∀ c id, Ensures (toView.Holds c) (b.fetch id)
    (fun r s => c.records id = some r ∧ toView.Holds c s) fun _ => toView.Holds c
  list : ∀ c block space, Ensures (toView.Holds c) (b.list block space)
    (fun rs s => rs = (c.index space block).filterMap c.records ∧ toView.Holds c s)
    fun _ => toView.Holds c

namespace Backend.Contract

/-- Why a value that is not there cannot be retrieved. -/
def missing (c : Contents) (id : RecordId) (key : String) : StoreError :=
  if (c.records id).isSome then .keyNotFound id key else .recordNotFound id

/-- **A reliable backend**: what the contents allow does not fail. -/
structure Reliable {b : Backend σ} (C : b.Contract) : Prop where
  start : ∀ s, C.Valid s → b.start.outcome s = .ok ()
  stop : ∀ s, C.Valid s → b.stop.outcome s = .ok ()
  init : ∀ r s, C.Valid s → (b.init r).outcome s =
    if ((C.see s).records r.id).isSome then .error (.recordAlreadyPresent r.id) else .ok ()
  store : ∀ r key value s, r.id ≠ Record.mempool.id → C.Valid s →
    (b.store r key value).outcome s = .ok r
  retrieve : ∀ r key s, r.id ≠ Record.mempool.id → C.Valid s → (b.retrieve r key).outcome s =
    match (C.see s).values r.id key with
    | some v => .ok v
    | none => .error (missing (C.see s) r.id key)
  fetch : ∀ id s, C.Valid s → (b.fetch id).outcome s =
    match (C.see s).records id with
    | some r => .ok r
    | none => .error (.recordNotFound id)
  list : ∀ block space s, C.Valid s → (b.list block space).outcome s =
    .ok (((C.see s).index space block).filterMap (C.see s).records)

variable {b : Backend σ} {C : b.Contract} (hC : C.Reliable) (c : Contents)
include hC

theorem Reliable.init_ensures (r : Record) : Ensures (C.Holds c) (b.init r)
    (fun _ s => c.records r.id = none ∧ C.Holds (c.withRecord r) s)
    fun e s => e.isAlreadyPresent = true ∧ c.records r.id ≠ none ∧ C.Holds c s := by
  refine .of_cases (fun s _ hs hok => (C.init c r).ok hs hok) fun s e hs herr => ?_
  obtain ⟨d, htried, hpresent, hafter⟩ := (C.init c r).error hs herr
  have hout := hC.init r s hs.1
  rw [herr] at hout
  split at hout
  · cases hout
    have hheld := hpresent rfl
    exact ⟨rfl, hheld, htried.eq_of_present hheld ▸ hafter⟩
  · cases hout

theorem Reliable.store_ensures {r : Record} (key : String) (value : Bytes)
    (hr : r.id ≠ Record.mempool.id) {E : StoreError → σ → Prop} :
    Ensures (C.Holds c) (b.store r key value)
      (fun _ => C.Holds (c.withValue r.id key value)) E := by
  refine .of_cases (fun s _ hs hok => ((C.store c r key value hr).ok hs hok).2)
    fun s e hs herr => ?_
  rw [hC.store r key value s hr hs.1] at herr
  cases herr

end Backend.Contract

/-! ## Refused calls -/

section Guarded
variable (gate : Backend.Call → Step ω Unit) {b : Backend σ} {α : Type}

/-- A step behind a check ensures what it ensures without it, provided that a refusal may be
reported where nothing has changed. -/
theorem Step.Ensures.behind_check {check : Step ω Unit} {m : Step σ α} {P : σ → Prop}
    {Q : α → σ → Prop} {E : StoreError → σ → Prop} (hm : Ensures P m Q E)
    (hrefused : ∀ e w s, check.outcome w = .error e → P s → E e s) :
    Ensures (fun s => P s.1)
      (do check.within Prod.snd fun w s => (s.1, w)
          m.within Prod.fst fun t s => (t, s.2) : Step (σ × ω) α)
      (fun a s => Q a s.1) fun e s => E e s.1 := by
  have hcheck : Ensures (fun s : σ × ω => P s.1) (check.within Prod.snd fun w s => (s.1, w))
      (fun _ s => P s.1) fun e s => E e s.1 := by
    refine .of_cases (fun _ _ hs _ => hs) fun s e hs he => ?_
    exact hrefused e s.2 s.1 he hs
  refine hcheck.bind fun _ => .within ?_
  rintro s hs _ rfl
  exact hm s.1 hs

/-- **A guarded backend keeps the contract**, provided that no refusal says that a record is present
or that something is unknown. -/
def Backend.Contract.guarded (C : b.Contract)
    (hgate : ∀ c w e, (gate c).outcome w = .error e → e.isAlreadyPresent = false ∧
      e.isNotFound = false) :
    (b.guarded gate).Contract where
  see s := C.see s.1
  Valid s := C.Valid s.1
  start c := (C.start c).behind_check fun _ _ _ _ hs => hs
  stop c := (C.stop c).behind_check fun _ _ _ _ hs => hs
  init c r := (C.init c r).behind_check fun e w s he hs =>
    ⟨c, .nothing, fun h => absurd h (by simp [(hgate _ w e he).1]), hs⟩
  store c r key value hr := (C.store c r key value hr).behind_check fun _ _ _ _ hs => hs
  retrieve c r key := (C.retrieve c r key).behind_check fun e w s he hs =>
    ⟨fun _ h => absurd h (by simp [(hgate _ w e he).2]), hs⟩
  fetch c id := (C.fetch c id).behind_check fun _ _ _ _ hs => hs
  list c block space := (C.list c block space).behind_check fun _ _ _ _ hs => hs

end Guarded

/-! ## The backend in memory -/

namespace Memory

/-- What a memory holds. -/
def contents (m : Memory) : Contents :=
  ⟨m.records.find?, fun id key => m.values.find? (id, key), m.indexed⟩

@[simp] theorem contents_withRecord (m : Memory) (r : Record) :
    (m.withRecord r).contents = m.contents.withRecord r := by
  ext1
  · funext id
    simp [contents, withRecord, Contents.withRecord, Table.find?_insert]
  · rfl
  · funext space block
    simp only [contents, withRecord, Contents.withRecord, indexed, Table.find?_insert]
    split
    · next h =>
      cases h
      rfl
    · rfl

@[simp] theorem contents_withValue (m : Memory) (id : RecordId) (key : String) (value : Bytes) :
    (m.withValue id key value).contents = m.contents.withValue id key value := by
  ext1
  · rfl
  · funext i k
    simp [contents, withValue, Contents.withValue, Table.find?_insert]
  · rfl

theorem init_of_absent {m : Memory} {r : Record} (h : m.contents.records r.id = none) :
    init r m = (.ok (), m.withRecord r) := by
  have : m.records.contains r.id = false := by simpa [Table.contains, contents] using h
  simp [init, this]

theorem init_of_present {m : Memory} {r : Record} (h : m.contents.records r.id ≠ none) :
    init r m = (.error (.recordAlreadyPresent r.id), m) := by
  have : m.records.contains r.id = true := by
    simpa [Table.contains, contents, Option.isSome_iff_ne_none] using h
  simp [init, this]

/-- A look-up finds the value, or says which of the record and the key is unknown. -/
theorem lookup_cases (m : Memory) (id : RecordId) (key : String) :
    (∃ v, m.contents.values id key = some v ∧ m.lookup id key = .ok v) ∨
      (m.contents.values id key = none ∧
        m.lookup id key = .error (Backend.Contract.missing m.contents id key)) := by
  unfold lookup
  cases hv : m.values.find? (id, key) with
  | some v => exact .inl ⟨v, hv, rfl⟩
  | none => exact .inr ⟨hv, (apply_ite Except.error _ _ _).symm⟩

/-- **The backend in memory keeps the contract** in every state. -/
def contract : backend.Contract where
  see := contents
  Valid _ := True
  start _ _ hm := hm
  stop _ _ hm := hm
  init := by
    rintro _ r m ⟨-, rfl⟩
    by_cases hr : m.contents.records r.id = none
    · rw [show backend.init r m = _ from init_of_absent hr]
      exact ⟨hr, trivial, contents_withRecord m r⟩
    · rw [show backend.init r m = _ from init_of_present hr]
      exact ⟨_, .nothing, fun _ => hr, trivial, rfl⟩
  store := by
    rintro _ r key value - m ⟨-, rfl⟩
    exact ⟨rfl, trivial, contents_withValue ..⟩
  retrieve := by
    rintro _ r key m ⟨-, rfl⟩
    rw [show backend.retrieve r key m = (m.lookup r.id key, m) from rfl]
    rcases lookup_cases m r.id key with ⟨v, hv, hl⟩ | ⟨hv, hl⟩
    · rw [hl]
      exact ⟨fun _ => hv, trivial, rfl⟩
    · rw [hl]
      exact ⟨fun _ _ => hv, trivial, rfl⟩
  fetch := by
    rintro _ id m ⟨-, rfl⟩
    rw [show backend.fetch id m = (m.record id, m) from rfl, record]
    cases hr : m.records.find? id with
    | some r => exact ⟨hr, trivial, rfl⟩
    | none => exact ⟨trivial, rfl⟩
  list := by
    rintro _ block space m ⟨-, rfl⟩
    exact ⟨rfl, trivial, rfl⟩

theorem contract_reliable : contract.Reliable where
  start _ _ := rfl
  stop _ _ := rfl
  init r m _ := by
    show (init r m).1 = _
    by_cases hr : m.contents.records r.id = none
    · simp [init_of_absent hr, contract, hr]
    · simp [init_of_present hr, contract, Option.isSome_iff_ne_none, hr]
  store _ _ _ _ _ _ := rfl
  retrieve r key m _ _ := by
    show m.lookup r.id key = match m.contents.values r.id key with | some v => _ | none => _
    rcases lookup_cases m r.id key with ⟨v, hv, hl⟩ | ⟨hv, hl⟩
    · rw [hl, hv]
    · rw [hl, hv]
      rfl
  fetch id m _ := by
    show m.record id = _
    rw [record]
    rfl
  list _ _ _ _ := rfl

end Memory
end SealedStore
