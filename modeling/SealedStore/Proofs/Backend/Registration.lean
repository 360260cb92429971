import SealedStore.Proofs.Backend.Index
import SealedStore.Proofs.Backend.KeyValue
import SealedStore.Proofs.Interleaving

/-! # Records that are initialized at the same time

Over a key-value store an index list is read in one call and written in another.  A lock keeps the
lists from other calls in between; the records themselves are claimed outside it.  Any calls may
take turns at any step.

Each step is classed twice, by what it does to the entries (`Acts`) and by what it does to the lock
(`Passes`).  The lock is held by one call at most (`Locked`), so what the holder has read is still
the list when it is written; and the lists name just the records whose call has come past that write
(`Sound.lists`).  With the calls at their ends that is every record (`concurrent_inits`).
-/
namespace SealedStore.Registration

open Step hiding run
open KeyValue Interleaving

variable {σ : Type}

/-! ## The steps of a call -/

/-- How far an initialization has come. -/
inductive Progress where
  | begun
  /-- The record is kept, the lock is asked for. -/
  | claimed
  /-- The lock is held. -/
  | admitted
  /-- The list was read. -/
  | read (ids : List RecordId)
  /-- The list was written, the lock is held still. -/
  | written
  | returned (result : Except StoreError Unit)
deriving DecidableEq

/-- What the calls share: the storage, and whether one of them holds the lock. -/
structure Shared (σ : Type) where
  storage : σ
  locked : Bool

/-- A step on the storage.  A call that it fails is at its end and leaves the
lock as it is told to. -/
def Shared.make {α : Type} (s : Shared σ) (m : Step σ α) (reached : α → Progress) (locked : Bool) :
    Progress × Shared σ :=
  match m s.storage with
  | (.ok a, t) => (reached a, { s with storage := t })
  | (.error e, t) => (.returned (.error e), ⟨t, locked⟩)

/-- The next step of a call. -/
def advance (kv : KeyValue σ) (r : Record) (p : Progress) (s : Shared σ) : Progress × Shared σ :=
  let key := indexKey r.version r.decryptionCondition
  match p with
  | .begun => s.make (kv.claim r) (fun _ => .claimed) s.locked
  | .claimed => if s.locked then (.claimed, s) else (.admitted, { s with locked := true })
  | .admitted => s.make (kv.readIndex key) .read false
  | .read ids => s.make (kv.writeIndex key (listedWith ids r.id)) (fun _ => .written) false
  | .written => (.returned (.ok ()), { s with locked := false })
  | .returned result => (.returned result, s)

/-- Calls on one backend. -/
abbrev Calls (σ : Type) := Interleaving (Shared σ) Record Progress

/-- Calls that are about to be made. -/
abbrev start (s : σ) (rs : List Record) : Calls σ := begin ⟨s, false⟩ rs .begun

/-- Whether a call has returned. -/
def Progress.Done (p : Progress) : Prop := ∃ result, p = .returned result

/-- **A call alone does what an initialization does.** -/
theorem run_alone (kv : KeyValue σ) (r : Record) (s : σ) :
    run (advance kv) (start s [r]) [0, 0, 0, 0, 0] =
      ⟨⟨(kv.init r).after s, false⟩, [(r, .returned ((kv.init r).outcome s))]⟩ := by
  rw [outcome, after, show kv.init r = kv.claim r >>= fun _ => kv.enlist r from rfl]
  rcases hclaim : kv.claim r s with ⟨e | ⟨⟩, t⟩
  · rw [bind_of_error hclaim]
    simp [run, next, begin, advance, Shared.make, hclaim]
  · rw [bind_of_ok hclaim, enlist]
    rcases hread : kv.readIndex (indexKey r.version r.decryptionCondition) t with ⟨e | ids, u⟩
    · rw [bind_of_error hread]
      simp [run, next, begin, advance, Shared.make, hclaim, hread]
    · rw [bind_of_ok hread]
      rcases hwrite : kv.writeIndex (indexKey r.version r.decryptionCondition)
        (listedWith ids r.id) u with
        ⟨e | ⟨⟩, v⟩ <;>
      simp [run, next, begin, advance, Shared.make, hclaim, hread, hwrite]

/-! ## What a step does -/

namespace Progress

/-- Whether the call has kept its record. -/
def keeps : Progress → Bool
  | claimed | admitted | read _ | written | returned (.ok _) => true
  | begun | returned (.error _) => false

/-- Whether the call holds the lock. -/
def holds : Progress → Bool
  | admitted | read _ | written => true
  | _ => false

/-- Whether the call has written the list. -/
def listed : Progress → Bool
  | written | returned (.ok _) => true
  | _ => false

theorem keeps_of_listed {p : Progress} (h : p.listed = true) : p.keeps = true := by
  cases p with
  | returned result =>
    cases result with
    | ok => rfl
    | error => exact nomatch h
  | written => rfl
  | _ => exact nomatch h

/-- The number of steps that a call has before it. -/
def left : Progress → Nat
  | begun => 5
  | claimed => 4
  | admitted => 3
  | read _ => 2
  | written => 1
  | returned _ => 0

end Progress

/-- **What a step of a call does to the entries**: it claims its record or finds it claimed, it
reads its list or writes it, or it touches none. -/
inductive Acts (r : Record) (t : String → Option Bytes) :
    Progress → Progress → (String → Option Bytes) → Prop
  | claims : t (recordKey r.id) = none →
      Acts r t .begun .claimed (update t (recordKey r.id) r.encode)
  | refuses : t (recordKey r.id) ≠ none →
      Acts r t .begun (.returned (.error (.recordAlreadyPresent r.id))) t
  | reads : Acts r t .admitted (.read (listed t r.version r.decryptionCondition)) t
  | writes (ids : List RecordId) : Acts r t (.read ids) .written
      (update t (listKey r.version r.decryptionCondition) (encodeList (listedWith ids r.id)))
  | waits : Acts r t .claimed .claimed t
  | enters : Acts r t .claimed .admitted t
  | leaves : Acts r t .written (.returned (.ok ())) t
  | idle (result : Except StoreError Unit) : Acts r t (.returned result) (.returned result) t

/-- **What a step of a call does to the lock.** -/
inductive Passes : Progress → Progress → Bool → Bool → Prop
  | stays {p q : Progress} {l : Bool} : q.holds = p.holds → Passes p q l l
  | takes {p q : Progress} : p.holds = false → q.holds = true → Passes p q false true
  | leaves {p q : Progress} {l : Bool} : p.holds = true → q.holds = false → Passes p q l false

variable {kv : KeyValue σ}

/-- What comes of a step on the storage. -/
theorem Shared.make_cases {α : Type} {m : Step σ α} {P : σ → Prop} {Q : α → σ → Prop}
    {E : StoreError → σ → Prop} (h : Ensures P m Q E) {s : Shared σ} (hs : P s.storage)
    {reached : α → Progress} {locked : Bool} {y : Progress × Shared σ}
    (hy : s.make m reached locked = y) :
    (∃ a t, y = (reached a, { s with storage := t }) ∧ Q a t) ∨
      ∃ e t, y = (.returned (.error e), ⟨t, locked⟩) ∧ E e t := by
  have hmade := h s.storage hs
  rw [make] at hy
  split at hmade
  · next a t hm =>
    rw [hm] at hy
    exact .inl ⟨a, t, hy.symm, hmade⟩
  · next e t hm =>
    rw [hm] at hy
    exact .inr ⟨e, t, hy.symm, hmade⟩

theorem advance_acts (K : kv.Contract fun _ => False) (r : Record) (p : Progress) (s : Shared σ)
    (ht : Readable (K.see s.storage)) :
    Acts r (K.see s.storage) p (advance kv r p s).1 (K.see (advance kv r p s).2.storage) := by
  cases p with
  | begun =>
    rcases Shared.make_cases (claim_ensures K r) rfl (y := advance kv r .begun s) rfl with
      ⟨-, t, hy, habsent, hsee⟩ | ⟨e, t, hy, hfault | ⟨hheld, rfl⟩, hsee⟩
    · rw [hy, hsee]
      exact .claims habsent
    · exact hfault.elim
    · rw [hy, hsee]
      exact .refuses hheld
  | claimed =>
    rw [advance]
    split
    · exact .waits
    · exact .enters
  | admitted =>
    rcases Shared.make_cases (readIndex_ensures K mute_false ht _ _) rfl
      (y := advance kv r .admitted s) rfl with
      ⟨ids, t, hy, rfl, hsee⟩ | ⟨e, t, hy, hfault, -⟩
    · rw [hy, hsee]
      exact .reads
    · exact hfault.elim
  | read ids =>
    rcases Shared.make_cases (writeIndex_ensures K _ _ _) rfl
      (y := advance kv r (.read ids) s) rfl with
      ⟨-, t, hy, hsee⟩ | ⟨e, t, hy, hfault, -⟩
    · rw [hy, hsee]
      exact .writes ids
    · exact hfault.elim
  | written => exact .leaves
  | returned result => exact .idle result

/-- A step on the storage, whatever it does there. -/
theorem Shared.make_any {α : Type} {m : Step σ α} {s : Shared σ}
    {reached : α → Progress} {locked : Bool}
    {y : Progress × Shared σ} (hy : s.make m reached locked = y) :
    (∃ a t, y = (reached a, { s with storage := t })) ∨
      ∃ e t, y = (.returned (.error e), ⟨t, locked⟩) := by
  rcases make_cases (Ensures.nothing m (P := fun _ => True)) trivial hy with
    ⟨a, t, hy, -⟩ | ⟨e, t, hy, -⟩
  · exact .inl ⟨a, t, hy⟩
  · exact .inr ⟨e, t, hy⟩

theorem advance_passes (kv : KeyValue σ) (r : Record) (p : Progress) (s : Shared σ) :
    Passes p (advance kv r p s).1 s.locked (advance kv r p s).2.locked := by
  cases p with
  | begun =>
    rcases Shared.make_any (y := advance kv r .begun s) rfl with ⟨-, t, hy⟩ | ⟨e, t, hy⟩ <;>
      rw [hy] <;> exact .stays rfl
  | claimed =>
    rw [advance]
    split
    · exact .stays rfl
    · next hfree =>
      rw [Bool.not_eq_true] at hfree
      rw [hfree]
      exact .takes rfl rfl
  | admitted =>
    rcases Shared.make_any (y := advance kv r .admitted s) rfl with
      ⟨ids, t, hy⟩ | ⟨e, t, hy⟩ <;> rw [hy]
    · exact .stays rfl
    · exact .leaves rfl rfl
  | read ids =>
    rcases Shared.make_any (y := advance kv r (.read ids) s) rfl with
      ⟨-, t, hy⟩ | ⟨e, t, hy⟩ <;> rw [hy]
    · exact .stays rfl
    · exact .leaves rfl rfl
  | written => exact .leaves rfl rfl
  | returned result => exact .stays rfl

/-- A call that does not wait comes nearer to its end. -/
theorem left_advance_lt (kv : KeyValue σ) {r : Record} {p : Progress} {s : Shared σ}
    (hdone : ¬ p.Done) (hfree : p = .claimed → s.locked = false) :
    (advance kv r p s).1.left < p.left := by
  cases p with
  | begun =>
    rcases Shared.make_any (y := advance kv r .begun s) rfl with ⟨-, t, hy⟩ | ⟨e, t, hy⟩ <;>
      rw [hy] <;> simp [Progress.left]
  | claimed => simp [advance, hfree rfl, Progress.left]
  | admitted =>
    rcases Shared.make_any (y := advance kv r .admitted s) rfl with ⟨ids, t, hy⟩ | ⟨e, t, hy⟩ <;>
      rw [hy] <;> simp [Progress.left]
  | read ids =>
    rcases Shared.make_any (y := advance kv r (.read ids) s) rfl with ⟨-, t, hy⟩ | ⟨e, t, hy⟩ <;>
      rw [hy] <;> simp [Progress.left]
  | written => simp [advance, Progress.left]
  | returned result => exact absurd ⟨result, rfl⟩ hdone

/-! ## What every step keeps -/

/-- Whether a call holds the lock. -/
def holder (c : Record × Progress) : Bool := c.2.holds

/-- Whether a call has kept its record under this id. -/
def keeper (id : RecordId) (c : Record × Progress) : Bool := decide (c.1.id = id) && c.2.keeps

/-- Whether a call has put this id on its list. -/
def lister (id : RecordId) (c : Record × Progress) : Bool := decide (c.1.id = id) && c.2.listed

/-- One call holds the lock, or it is free. -/
def Locked (s : Calls σ) : Prop := s.calls.countP holder = s.shared.locked.toNat

/-- **The account of the calls** on a backend that held `c₀`: a record that was not held before is
held for one call alone, a call was refused only where a record is, and the lists name what was held
before and the records whose calls have written their lists. -/
structure Sound (c₀ : Contents) (t : String → Option Bytes) (calls : List (Record × Progress)) :
    Prop where
  readable : Readable t
  remains : ∀ id r, c₀.records id = some r → (contents t).records id = some r
  keepers : ∀ id, calls.countP (keeper id) =
    if c₀.records id = none ∧ (contents t).records id ≠ none then 1 else 0
  kept : ∀ (n : Nat) (r : Record) (p : Progress), calls[n]? = some (r, p) → p.keeps = true →
    (contents t).records r.id = some r
  refused : ∀ (n : Nat) (r : Record) (e : StoreError), calls[n]? = some (r, .returned (.error e)) →
    e = .recordAlreadyPresent r.id ∧ (contents t).records r.id ≠ none
  lists : (contents t).Lists fun id => c₀.records id ≠ none ∨ 0 < calls.countP (lister id)
  /-- What the holder of the lock has read is the list still. -/
  current : ∀ (n : Nat) (r : Record) (ids : List RecordId), calls[n]? = some (r, .read ids) →
    ids = listed t r.version r.decryptionCondition

/-! ### The lock -/

theorem Passes.count {p q : Progress} {l m : Bool} (h : Passes p q l m)
    (hl : p.holds = true → l = true) :
    q.holds.toNat + l.toNat = p.holds.toNat + m.toNat := by
  cases h with
  | stays hsame => rw [hsame]
  | takes hp hq => rw [hp, hq]; rfl
  | leaves hp hq => rw [hp, hq, hl hp]; rfl

namespace Locked

variable {s : Calls σ} {n : Nat} {r : Record} {p : Progress}

theorem of_holds (h : Locked s) (hn : s.calls[n]? = some (r, p)) (hp : p.holds = true) :
    s.shared.locked = true := by
  have hpos : 0 < s.calls.countP holder := List.countP_pos_iff.mpr ⟨_, List.mem_of_getElem? hn, hp⟩
  rw [h] at hpos
  cases hlocked : s.shared.locked with
  | true => rfl
  | false =>
    rw [hlocked] at hpos
    exact absurd hpos (Nat.lt_irrefl 0)

/-- Two calls that hold the lock are one. -/
theorem alone (h : Locked s) {m : Nat} {q : Record} {x : Progress} (hm : s.calls[m]? = some (q, x))
    (hn : s.calls[n]? = some (r, p)) (hx : x.holds = true) (hp : p.holds = true) : m = n := by
  refine eq_of_countP_le_one (f := holder) ?_ hm hn hx hp
  rw [h]
  exact Bool.toNat_le _

/-- A step of a call leaves one holder or none. -/
theorem step (h : Locked s) (hn : s.calls[n]? = some (r, p)) :
    Locked ⟨(advance kv r p s.shared).2, s.calls.set n (r, (advance kv r p s.shared).1)⟩ := by
  have hset := countP_set_add hn (r, (advance kv r p s.shared).1) holder
  have hcount := (advance_passes kv r p s.shared).count (h.of_holds hn)
  rw [h] at hset
  simp only [holder] at hset
  simp only [Locked]
  omega

end Locked

/-! ### The records -/

section

variable {r : Record} {t u : String → Option Bytes} {p q : Progress}

theorem records_of_absent {id : RecordId} (h : t (recordKey id) = none) :
    (contents t).records id = none := by
  show (t (recordKey id)).bind Record.decode? = none
  rw [h]
  rfl

/-- A step keeps a new record, or leaves all records as they are. -/
theorem Acts.records (h : Acts r t p q u) :
    (p.keeps = false ∧ q.keeps = true ∧ (contents t).records r.id = none ∧
        (contents u).records = ((contents t).withUnlisted r).records) ∨
      (q.keeps = p.keeps ∧ (contents u).records = (contents t).records) := by
  cases h with
  | claims habsent =>
    rw [contents_update_recordKey]
    exact .inl ⟨rfl, rfl, records_of_absent habsent, rfl⟩
  | writes ids => exact .inr ⟨rfl, records_update_listKey t _ _ _⟩
  | _ => exact .inr ⟨rfl, rfl⟩

theorem Acts.mono (h : Acts r t p q u) {id : RecordId} {x : Record}
    (hx : (contents t).records id = some x) :
    (contents u).records id = some x := by
  rcases h.records with ⟨-, -, hnone, hu⟩ | ⟨-, hu⟩
  · have hne : r.id ≠ id := by
      rintro rfl
      rw [hnone] at hx
      cases hx
    rw [hu]
    exact (Contents.records_withRecord_of_ne _ hne).trans hx
  · rw [hu, hx]

/-- A call that has come to an error was refused for the record that is held, just now or before. -/
theorem Acts.of_error (h : Acts r t p q u) {e : StoreError} (hq : q = .returned (.error e)) :
    p = q ∨ e = .recordAlreadyPresent r.id ∧ t (recordKey r.id) ≠ none := by
  cases h with
  | refuses hheld =>
    cases hq
    exact .inr ⟨rfl, hheld⟩
  | idle => exact .inl rfl
  | _ => exact nomatch hq

/-- A call that has read its list has just read it. -/
theorem Acts.of_read (h : Acts r t p q u) {ids : List RecordId} (hq : q = .read ids) :
    ids = listed t r.version r.decryptionCondition ∧ u = t := by
  cases h with
  | reads =>
    cases hq
    exact ⟨rfl, rfl⟩
  | _ => exact nomatch hq

/-- A step that writes no list leaves all lists, and a step that changes no
entry tells of no list. -/
theorem Acts.lists (h : Acts r t p q u) :
    u = t ∧ q.listed = p.listed ∨
      (t (recordKey r.id) = none ∧ u = update t (recordKey r.id) r.encode ∧ q.listed = p.listed) ∨
      ∃ ids, p = .read ids ∧ q = .written ∧
        u = update t (listKey r.version r.decryptionCondition)
          (encodeList (listedWith ids r.id)) := by
  cases h with
  | claims habsent => exact .inr (.inl ⟨habsent, rfl, rfl⟩)
  | writes ids => exact .inr (.inr ⟨ids, rfl, rfl, rfl⟩)
  | _ => exact .inl ⟨rfl, rfl⟩

end

/-! ### One step -/

namespace Sound

variable {c₀ : Contents} {t u : String → Option Bytes} {calls : List (Record × Progress)} {n : Nat}
  {r : Record} {p q : Progress}

theorem exists_keeper (h : Sound c₀ t calls) {id : RecordId} (habsent : c₀.records id = none)
    (hheld : (contents t).records id ≠ none) :
    ∃ (n : Nat) (r : Record) (p : Progress), calls[n]? = some (r, p) ∧ r.id = id ∧
      p.keeps = true := by
  have hpos : 0 < calls.countP (keeper id) := by
    rw [h.keepers, if_pos ⟨habsent, hheld⟩]
    exact Nat.one_pos
  obtain ⟨⟨r, p⟩, hmem, hkeeper⟩ := List.countP_pos_iff.mp hpos
  obtain ⟨n, hn⟩ := List.mem_iff_getElem?.mp hmem
  simp only [keeper, Bool.and_eq_true, decide_eq_true_eq] at hkeeper
  exact ⟨n, r, p, hn, hkeeper⟩

/-- Two calls that have kept records under one id are one. -/
theorem alone (h : Sound c₀ t calls) {m : Nat} {s : Record} {x : Progress}
    (hm : calls[m]? = some (s, x)) (hn : calls[n]? = some (r, p)) (hx : x.keeps = true)
    (hp : p.keeps = true) (hid : s.id = r.id) : m = n := by
  refine eq_of_countP_le_one (f := keeper r.id) ?_ hm hn (by simp [keeper, hid, hx])
    (by simp [keeper, hp])
  rw [h.keepers]
  split <;> decide

/-- A call that has kept its record and not yet listed it is on no list. -/
theorem not_listed (h : Sound c₀ t calls) (hn : calls[n]? = some (r, p)) (hp : p.keeps = true)
    (hlisted : p.listed = false) : ¬ (c₀.records r.id ≠ none ∨ 0 < calls.countP (lister r.id)) := by
  rintro (hbefore | hpos)
  · have hcount : 0 < calls.countP (keeper r.id) :=
      List.countP_pos_iff.mpr ⟨_, List.mem_of_getElem? hn, by simp [keeper, hp]⟩
    rw [h.keepers, if_neg fun hnew => hbefore hnew.1] at hcount
    exact Nat.lt_irrefl 0 hcount
  · obtain ⟨⟨s, x⟩, hmem, hlister⟩ := List.countP_pos_iff.mp hpos
    obtain ⟨m, hm⟩ := List.mem_iff_getElem?.mp hmem
    simp only [lister, Bool.and_eq_true, decide_eq_true_eq] at hlister
    -- the one that is listed has kept the record as well, so it is this call
    obtain rfl := h.alone hm hn (Progress.keeps_of_listed hlister.2) hp hlister.1
    rw [hn] at hm
    cases hm
    rw [hlisted] at hlister
    exact nomatch hlister.2

/-- The number of calls that keep a record under an id. -/
theorem keepers_step (h : Sound c₀ t calls) (hn : calls[n]? = some (r, p)) (hacts : Acts r t p q u)
    (id : RecordId) : (calls.set n (r, q)).countP (keeper id) =
      if c₀.records id = none ∧ (contents u).records id ≠ none then 1 else 0 := by
  have hset := countP_set_add hn (r, q) (keeper id)
  rw [h.keepers] at hset
  simp only [keeper] at hset
  rcases hacts.records with ⟨hp, hq, hnone, hu⟩ | ⟨hsame, hu⟩
  · rw [hp, hq, Bool.and_false, Bool.and_true] at hset
    rw [hu]
    by_cases hid : r.id = id
    · subst hid
      have hnew : c₀.records r.id = none := by
        cases hbefore : c₀.records r.id with
        | none => rfl
        | some x => exact absurd (h.remains _ _ hbefore) (by rw [hnone]; exact nofun)
      rw [if_neg fun hheld => hheld.2 hnone] at hset
      rw [if_pos ⟨hnew, by simp [Contents.withUnlisted]⟩]
      simpa using hset
    · have hother : ((contents t).withUnlisted r).records id = (contents t).records id :=
        Contents.records_withRecord_of_ne _ hid
      rw [decide_eq_false hid] at hset
      rw [hother]
      simpa using hset
  · rw [hsame] at hset
    rw [hu]
    omega

/-- The lists after a step. -/
theorem lists_step (h : Sound c₀ t calls) (hn : calls[n]? = some (r, p)) (hacts : Acts r t p q u) :
    (contents u).Lists fun id => c₀.records id ≠ none ∨
      0 < (calls.set n (r, q)).countP (lister id) := by
  have hset := fun id => countP_set_add hn (r, q) (lister id)
  simp only [lister] at hset
  have hsame : q.listed = p.listed →
      ∀ id, (c₀.records id ≠ none ∨ 0 < (calls.set n (r, q)).countP (lister id)) ↔
      (c₀.records id ≠ none ∨ 0 < calls.countP (lister id)) := by
    intro hlisted id
    have hcount : (calls.set n (r, q)).countP (lister id) = calls.countP (lister id) := by
      have := hset id
      rw [hlisted] at this
      exact Nat.add_right_cancel this
    rw [hcount]
  rcases hacts.lists with ⟨rfl, hlisted⟩ | ⟨habsent, rfl, hlisted⟩ | ⟨ids, rfl, rfl, rfl⟩
  · exact h.lists.congr (hsame hlisted)
  · rw [contents_update_recordKey]
    exact (h.lists.tried (.unlisted (records_of_absent habsent))).congr (hsame hlisted)
  · have hkept := h.kept n r _ hn rfl
    have hnew := h.not_listed hn rfl rfl
    have hids := h.current n r ids hn
    have hnotin : r.id ∉ listed t r.version r.decryptionCondition := fun hid =>
      hnew ((h.lists.mem_iff _ _ _).mp hid).1
    have hwith : listedWith ids r.id = listed t r.version r.decryptionCondition ++ [r.id] := by
      rw [hids]
      exact if_neg (by simpa using hnotin)
    rw [hwith, contents_update_listKey]
    refine (h.lists.enlist hkept hnew).congr fun id => ?_
    have hcount : (calls.set n (r, .written)).countP (lister id) =
        calls.countP (lister id) + (decide (r.id = id)).toNat := by
      simpa [Progress.listed] using hset id
    rw [hcount]
    by_cases hid : r.id = id
    · subst hid
      exact ⟨fun _ => .inl rfl, fun _ => .inr (by simp)⟩
    · rw [decide_eq_false hid]
      exact (or_iff_right (Ne.symm hid)).symm

theorem readable_step (h : Sound c₀ t calls) (hn : calls[n]? = some (r, p))
    (hacts : Acts r t p q u) :
    Readable u := by
  rcases hacts.lists with ⟨rfl, -⟩ | ⟨-, rfl, -⟩ | ⟨ids, rfl, -, rfl⟩
  · exact h.readable
  · exact h.readable.update_recordKey r
  · refine h.readable.update_listKey fun id hid => ?_
    have hids := h.current n r ids hn
    rcases mem_listedWith.mp hid with hid | rfl
    · exact h.readable.present _ _ id (hids ▸ hid)
    · intro hnone
      exact nomatch (records_of_absent hnone).symm.trans (h.kept n r _ hn rfl)

/-- What was read is current after a step: the one that writes is the one that holds the lock. -/
theorem current_step (h : Sound c₀ t calls) (hlock : calls.countP holder ≤ 1)
    (hn : calls[n]? = some (r, p))
    (hacts : Acts r t p q u) (m : Nat) (s : Record) (ids : List RecordId)
    (hm : (calls.set n (r, q))[m]? = some (s, .read ids)) :
    ids = listed u s.version s.decryptionCondition := by
  rcases getElem?_set_cases hm with ⟨-, hcall⟩ | ⟨hne, hm⟩
  · obtain ⟨rfl, hq⟩ := Prod.mk.inj hcall
    obtain ⟨hids, rfl⟩ := hacts.of_read hq.symm
    exact hids
  · have hids := h.current m s ids hm
    rcases hacts.lists with ⟨rfl, -⟩ | ⟨-, rfl, -⟩ | ⟨others, rfl, -, -⟩
    · exact hids
    · rwa [listed_update_recordKey]
    · exact absurd (eq_of_countP_le_one (f := holder) hlock hm hn rfl rfl) hne

/-- **A step keeps the account.** -/
theorem step (h : Sound c₀ t calls) (hlock : calls.countP holder ≤ 1) (hn : calls[n]? = some (r, p))
    (hacts : Acts r t p q u) : Sound c₀ u (calls.set n (r, q)) where
  readable := h.readable_step hn hacts
  remains id x hx := hacts.mono (h.remains id x hx)
  keepers := h.keepers_step hn hacts
  kept m s x hm hx := by
    rcases getElem?_set_cases hm with ⟨-, hcall⟩ | ⟨-, hm⟩
    · obtain ⟨rfl, rfl⟩ := Prod.mk.inj hcall
      rcases hacts.records with ⟨-, -, -, hu⟩ | ⟨hsame, hu⟩
      · rw [hu]
        exact Contents.records_withRecord_self _ s
      · rw [hu]
        exact h.kept n s p hn (hsame ▸ hx)
    · exact hacts.mono (h.kept m s x hm hx)
  refused m s e hm := by
    have hheld : e = .recordAlreadyPresent s.id ∧ (contents t).records s.id ≠ none := by
      rcases getElem?_set_cases hm with ⟨-, hcall⟩ | ⟨-, hm⟩
      · obtain ⟨rfl, hq⟩ := Prod.mk.inj hcall
        rcases hacts.of_error hq.symm with rfl | ⟨he, hheld⟩
        · exact h.refused n s e (hq ▸ hn)
        · exact ⟨he, mt h.readable.records_eq_none_iff.mp hheld⟩
      · exact h.refused m s e hm
    obtain ⟨x, hx⟩ := Option.ne_none_iff_exists'.mp hheld.2
    exact ⟨hheld.1, by rw [hacts.mono hx]; exact nofun⟩
  lists := h.lists_step hn hacts
  current := h.current_step hlock hn hacts

theorem begin (ht : Readable t) (hindexed : (contents t).Indexed) (rs : List Record) :
    Sound (contents t) t (rs.map (·, .begun)) := by
  refine ⟨ht, fun _ _ hx => hx, fun id => ?_, fun n r p hn hp => ?_, fun n r e hn => ?_, ?_,
    fun n r ids hn => ?_⟩
  · rw [countP_first fun r => by simp [keeper, Progress.keeps], if_neg fun hheld => hheld.2 hheld.1]
  · exact nomatch eq_first hn ▸ hp
  · exact nomatch eq_first hn
  · refine (Contents.indexed_iff.mp hindexed).congr fun id => ?_
    rw [countP_first fun r => by simp [lister, Progress.listed]]
    simp
  · exact nomatch eq_first hn

end Sound

/-! ## Runs -/

variable {K : kv.Contract fun _ => False} {c₀ : Contents} {s : Calls σ}

/-- The account of the calls and of the lock. -/
def Accounted (K : kv.Contract fun _ => False) (c₀ : Contents) (s : Calls σ) : Prop :=
  Locked s ∧ Sound c₀ (K.see s.shared.storage) s.calls

namespace Accounted

theorem step (h : Accounted K c₀ s) {n : Nat} {r : Record} {p : Progress}
    (hn : s.calls[n]? = some (r, p)) :
    Accounted K c₀ ⟨(advance kv r p s.shared).2,
      s.calls.set n (r, (advance kv r p s.shared).1)⟩ := by
  have hlock : s.calls.countP holder ≤ 1 := by
    rw [h.1]
    exact Bool.toNat_le _
  exact ⟨h.1.step hn, h.2.step hlock hn (advance_acts K r p s.shared h.2.readable)⟩

/-- **Every run keeps the account.** -/
theorem run (h : Accounted K c₀ s) (moves : List Nat) :
    Accounted K c₀ (run (advance kv) s moves) :=
  run_induction (fun _ _ _ _ hs hn => hs.step hn) h moves

theorem start {storage : σ} (ht : Readable (K.see storage))
    (hindexed : (contents (K.see storage)).Indexed)
    (rs : List Record) : Accounted K (contents (K.see storage)) (start storage rs) :=
  ⟨countP_first (fun _ => rfl) rs, Sound.begin ht hindexed rs⟩

/-- As long as a call has not returned, there is one that need not wait. -/
theorem exists_free (h : Accounted K c₀ s) (hdone : ¬ s.All Progress.Done) :
    ∃ (n : Nat) (r : Record) (p : Progress), s.calls[n]? = some (r, p) ∧ ¬ p.Done ∧
      (p = .claimed → s.shared.locked = false) := by
  cases hlocked : s.shared.locked with
  | true =>
    -- the one that holds the lock
    have hpos : 0 < s.calls.countP holder := by
      rw [h.1, hlocked]
      decide
    obtain ⟨⟨r, p⟩, hmem, hp⟩ := List.countP_pos_iff.mp hpos
    obtain ⟨n, hn⟩ := List.mem_iff_getElem?.mp hmem
    refine ⟨n, r, p, hn, ?_, ?_⟩
    · rintro ⟨result, rfl⟩
      exact nomatch hp
    · rintro rfl
      exact nomatch hp
  | false =>
    simp only [All, not_forall] at hdone
    obtain ⟨⟨r, p⟩, hmem, hp⟩ := hdone
    obtain ⟨n, hn⟩ := List.mem_iff_getElem?.mp hmem
    exact ⟨n, r, p, hn, hp, fun _ => rfl⟩

/-- **No call waits for good.** -/
theorem exists_finish (h : Accounted K c₀ s) :
    ∃ moves, (Interleaving.run (advance kv) s moves).All Progress.Done := by
  refine exists_run_of_rank (I := Accounted K c₀) (fun s => (s.calls.map (·.2.left)).sum) ?_ h
  intro s hs hdone
  obtain ⟨n, r, p, hn, hp, hfree⟩ := hs.exists_free hdone
  refine ⟨n, ?_, ?_⟩
  · rw [next_of_getElem? hn]
    exact hs.step hn
  · have hset := sum_map_set_add hn (r, (advance kv r p s.shared).1) (·.2.left)
    have hlt := left_advance_lt kv (r := r) hp hfree
    rw [next_of_getElem? hn]
    dsimp only at hset ⊢
    omega

/-- Once all calls have returned, the lists name everything that is held. -/
theorem indexed (h : Accounted K c₀ s) (hdone : s.All Progress.Done) :
    (contents (K.see s.shared.storage)).Indexed := by
  refine Contents.indexed_iff.mpr (h.2.lists.congr fun id => ⟨fun hheld => ?_, h.2.lists.held id⟩)
  by_cases hbefore : c₀.records id = none
  · obtain ⟨n, r, p, hn, rfl, hp⟩ := h.2.exists_keeper hbefore hheld
    have hmem := List.mem_of_getElem? hn
    refine .inr (List.countP_pos_iff.mpr ⟨_, hmem, ?_⟩)
    obtain ⟨result, rfl⟩ := hdone _ hmem
    cases result with
    | ok => simp [lister, Progress.listed]
    | error e => exact nomatch hp
  · exact .inl hbefore

/-- How a call ended. -/
theorem result (h : Accounted K c₀ s) {n : Nat} {r : Record} {result : Except StoreError Unit}
    (hn : s.calls[n]? = some (r, .returned result)) :
    result = .ok () ∧ c₀.records r.id = none ∧
      (contents (K.see s.shared.storage)).records r.id = some r ∨
      result = .error (.recordAlreadyPresent r.id) ∧
        (contents (K.see s.shared.storage)).records r.id ≠ none := by
  cases result with
  | ok =>
    refine .inl ⟨rfl, ?_, h.2.kept n r _ hn rfl⟩
    have hpos : 0 < s.calls.countP (keeper r.id) :=
      List.countP_pos_iff.mpr ⟨_, List.mem_of_getElem? hn, by simp [keeper, Progress.keeps]⟩
    rw [h.2.keepers] at hpos
    by_contra hbefore
    rw [if_neg fun hnew => hbefore hnew.1] at hpos
    exact Nat.lt_irrefl 0 hpos
  | error e =>
    obtain ⟨rfl, hheld⟩ := h.2.refused n r e hn
    exact .inr ⟨rfl, hheld⟩

/-- **One call for each new id succeeds.** -/
theorem existsUnique_success (h : Accounted K c₀ s) (hdone : s.All Progress.Done) {r : Record}
    (hr : r ∈ s.calls.map Prod.fst) (hnew : c₀.records r.id = none) :
    ∃! n : Nat, ∃ q : Record, q.id = r.id ∧ s.calls[n]? = some (q, .returned (.ok ())) := by
  obtain ⟨⟨r, p⟩, hmem, rfl⟩ := List.mem_map.mp hr
  obtain ⟨m, hm⟩ := List.mem_iff_getElem?.mp hmem
  obtain ⟨result, rfl⟩ := hdone _ hmem
  have hheld : (contents (K.see s.shared.storage)).records r.id ≠ none := by
    rcases h.result hm with ⟨-, -, hheld⟩ | ⟨-, hheld⟩
    · rw [hheld]
      exact nofun
    · exact hheld
  obtain ⟨n, q, p, hn, hid, hp⟩ := h.2.exists_keeper hnew hheld
  obtain ⟨made, rfl⟩ := hdone _ (List.mem_of_getElem? hn)
  cases made with
  | error e => exact nomatch hp
  | ok =>
    refine ⟨n, ⟨q, hid, hn⟩, ?_⟩
    rintro k ⟨x, hx, hk⟩
    exact h.2.alone hk hn rfl rfl (hx.trans hid.symm)

end Accounted

/-! ## Calls at their ends -/

/-- Where lists are faithful, a record is once on its own list and on no other. -/
theorem list_of_indexed (K : kv.Contract fun _ => False) {t : σ} (ht : Readable (K.see t))
    (hindexed : (contents (K.see t)).Indexed) {id : RecordId} {r : Record}
    (hr : (kv.fetch id).outcome t = .ok r) (space : String) (block : BitVec 64) :
    ∃ ids found, (kv.readIndex (indexKey space block)).outcome t = .ok ids ∧
      (kv.list block space).outcome t = .ok found ∧
      (ids.count id = if (r.version, r.decryptionCondition) = (space, block) then 1 else 0) ∧
      found.count r = if (r.version, r.decryptionCondition) = (space, block) then 1 else 0 := by
  have hheld : (contents (K.see t)).records id = some r := ((fetch_ensures K ht id).ok rfl hr).1
  obtain rfl := hindexed.bears id r hheld
  have hread := (readIndex_ensures K mute_false ht space block).mono (fun _ hs => hs)
    (fun _ _ hs => hs) fun _ _ hs => hs.1
  obtain ⟨ids, hids, rfl, -⟩ := hread.exists_ok rfl
  refine ⟨_, (contents (K.see t)).listing block space, hids,
    K.backend_reliable.list block space t ht, ?_, ?_⟩
  · have hmem : r.id ∈ listed (K.see t) space block ↔
        (r.version, r.decryptionCondition) = (space, block) := by
      refine (hindexed.mem_iff space block r.id).trans ?_
      simp [hheld]
    rw [(show (listed (K.see t) space block).Nodup from hindexed.nodup space block).count]
    simp only [hmem]
  · have hmem : r ∈ (contents (K.see t)).listing block space ↔
        (r.version, r.decryptionCondition) = (space, block) :=
      hindexed.mem_listing_iff.trans (and_iff_right hheld)
    rw [(hindexed.nodup_listing block space).count]
    simp only [hmem]

/-- **Initializations that race lose nothing.**  Any calls on one backend, in any order of their
steps, can all be brought to their ends.  There, for each id that was new, just one of its calls has
succeeded, every other call was told that the record is present, and every record that is held is
listed once on its own list and on no other. -/
theorem concurrent_inits (K : kv.Contract fun _ => False) {storage : σ}
    (hreadable : Readable (K.see storage))
    (hindexed : (contents (K.see storage)).Indexed) (rs : List Record) (moves : List Nat) :
    let s := run (advance kv) (start storage rs) moves
    let t := s.shared.storage
    (∃ more, (run (advance kv) s more).All Progress.Done) ∧
      (s.All Progress.Done →
        (∀ r ∈ rs, (contents (K.see storage)).records r.id = none →
          ∃! n : Nat, ∃ q : Record, q.id = r.id ∧ s.calls[n]? = some (q, .returned (.ok ()))) ∧
        (∀ (n : Nat) r result, s.calls[n]? = some (r, .returned result) →
          result = .ok () ∧ (contents (K.see storage)).records r.id = none ∧
            (kv.fetch r.id).outcome t = .ok r ∨
            result = .error (.recordAlreadyPresent r.id)) ∧
        ∀ id r, (kv.fetch id).outcome t = .ok r → ∀ space block,
          ∃ ids found, (kv.readIndex (indexKey space block)).outcome t = .ok ids ∧
            (kv.list block space).outcome t = .ok found ∧
            (ids.count id = if (r.version, r.decryptionCondition) = (space, block) then 1 else 0) ∧
            found.count r =
              if (r.version, r.decryptionCondition) = (space, block) then 1 else 0) := by
  intro s t
  have haccount : Accounted K (contents (K.see storage)) s :=
    (Accounted.start hreadable hindexed rs).run moves
  refine ⟨haccount.exists_finish, fun hdone =>
    ⟨fun r hr hnew => ?_, fun n r result hn => ?_, fun id r hr => ?_⟩⟩
  · refine haccount.existsUnique_success hdone ?_ hnew
    rw [requests_run]
    simpa [begin] using hr
  · refine (haccount.result hn).imp (fun hok => ⟨hok.1, hok.2.1, ?_⟩) fun herr => herr.1
    have hfetch := K.backend_reliable.fetch r.id t haccount.2.readable
    rw [show ((K.backend mute_false).see t).records r.id = some r from hok.2.2] at hfetch
    exact hfetch
  · exact list_of_indexed K haccount.2.readable (haccount.indexed hdone) hr

/-- A record with an id that is not derived. -/
private def contender (n : UInt8) (space : String) : Record :=
  { Record.fresh Octets.zero 7 [] [] space with id := Octets.replicate 16 n }

/-- Two calls for one id in different namespaces, and one for another id on the list of the first:
the second call finds the record claimed while the first has not listed it yet, and the third is
before the first on the list. -/
theorem concurrent_inits_of_three :
    let rs := [contender 1 "a", contender 1 "b", contender 2 "a"]
    let s := run (advance ofTable) (start .empty rs) [0, 1, 2, 2, 0, 2, 2, 0, 2, 0, 0, 0, 0]
    let t := s.shared.storage
    s.calls.map Prod.snd =
        [.returned (.ok ()), .returned (.error (.recordAlreadyPresent (contender 1 "b").id)),
          .returned (.ok ())] ∧
      (ofTable.list 7 "a").outcome t = .ok [contender 2 "a", contender 1 "a"] ∧
      (ofTable.list 7 "b").outcome t = .ok [] ∧
      ∃! n : Nat, ∃ q : Record, q.id = (contender 1 "a").id ∧
        s.calls[n]? = some (q, .returned (.ok ())) := by
  intro rs s t
  have hempty : tableContract.see .empty = fun _ => none := rfl
  have hreadable : Readable (tableContract.see .empty) := hempty ▸ readable_empty
  have hindexed : (contents (tableContract.see .empty)).Indexed := by
    rw [hempty, contents_empty]
    exact Contents.indexed_empty
  have hcalls : s.calls.map Prod.snd = [.returned (.ok ()),
      .returned (.error (.recordAlreadyPresent (contender 1 "b").id)), .returned (.ok ())] := by
        decide +kernel
  have hdone : s.All Progress.Done := by
    intro c hc
    have hmem := List.mem_map_of_mem (f := Prod.snd) hc
    rw [hcalls] at hmem
    simp only [List.mem_cons, List.not_mem_nil, or_false] at hmem
    rcases hmem with h | h | h <;> exact ⟨_, h⟩
  obtain ⟨-, hended⟩ := concurrent_inits tableContract hreadable hindexed rs
    [0, 1, 2, 2, 0, 2, 2, 0, 2, 0, 0, 0, 0]
  exact ⟨hcalls, by decide +kernel, by decide +kernel, (hended hdone).1 _ List.mem_cons_self rfl⟩

end SealedStore.Registration
