import SealedStore.Proofs.Draft.Call
import SealedStore.Proofs.Rooted
import SealedStore.Proofs.Sample.Node

/-! # Calls that race on one draft

A run is any order of the steps of any calls on a fresh draft, while the engine may be used from
elsewhere at any moment.  `Race.log` lists what the calls put into the draft and took from it, in
order.  Every step keeps the account of the draft (`Race.Accounted.next`), so every run does; and
from the account it is read what racing calls come to (`Race.racing_calls`): nothing is lost,
nothing is taken twice, and nothing is put into the draft behind the finalization that took it.
-/
namespace SealedStore.Race

open Step Draft

variable {σ τ : Type}

/-! ## Runs -/

/-- An engine with a draft, and the calls on the draft. -/
structure State (σ τ : Type) where
  execution : Execution σ τ
  calls : List (Request × Progress)

/-- Calls that are about to be made on a fresh draft. -/
def start (engine : Engine.State σ τ) (tx : Transaction) (requests : List Request) : State σ τ :=
  ⟨⟨engine, Draft.begin tx⟩, requests.map (·, .begun)⟩

/-- What happens next. -/
inductive Move (σ τ : Type) where
  /-- This call makes a step. -/
  | call (n : Nat)
  /-- The engine is used from elsewhere, which may do anything to it. -/
  | engine (s : Engine.State σ τ)

variable (e : Engine σ τ)

/-- The state after a move. -/
def next (s : State σ τ) : Move σ τ → State σ τ
  | .call n =>
    match s.calls[n]? with
    | some (request, p) =>
      let y := step e request p s.execution
      ⟨y.2, s.calls.set n (request, y.1)⟩
    | none => s
  | .engine engine => { s with execution := { s.execution with engine } }

/-- The state after moves in any order. -/
def run (s : State σ τ) (moves : List (Move σ τ)) : State σ τ := moves.foldl (next e) s

/-- What a move puts into the draft or takes from it. -/
def noted (s : State σ τ) : Move σ τ → List Event
  | .call n =>
    match s.calls[n]? with
    | some (request, p) => Event.news n request p (step e request p s.execution).1
    | none => []
  | .engine _ => []

/-- What moves put into the draft or take from it, in order. -/
def log : State σ τ → List (Move σ τ) → List Event
  | _, [] => []
  | s, move :: moves => noted e s move ++ log (next e s move) moves

variable {e}

/-- What is told of a call. -/
def State.event? (s : State σ τ) (n : Nat) : Option Event :=
  s.calls[n]?.bind fun c => Event.of? n c.1 c.2

theorem log_append (s : State σ τ) (moves more : List (Move σ τ)) :
    log e s (moves ++ more) = log e s moves ++ log e (run e s moves) more := by
  induction moves generalizing s with
  | nil => rfl
  | cons move moves ih =>
    rw [List.cons_append, log, log, ih, List.append_assoc]
    rfl

/-! ## The account of a draft -/

/-- **A ledger**: a list of just what is told of each call, each thing once. -/
structure Ledger (told : Nat → Option Event) (log : List Event) : Prop where
  nodup : (log.map Event.call).Nodup
  mem_iff : ∀ event, event ∈ log ↔ told event.call = some event

namespace Ledger

variable {told told' : Nat → Option Event} {log : List Event}

/-- A call of which something is told for the first time. -/
theorem note (h : Ledger told log) {event : Event} (hnone : told event.call = none)
    (hnew : told' event.call = some event) (hrest : ∀ n, n ≠ event.call → told' n = told n) :
    Ledger told' (log ++ [event]) := by
  have hfresh : event.call ∉ log.map Event.call := by
    intro hmem
    obtain ⟨old, hold, hcall⟩ := List.mem_map.mp hmem
    rw [h.mem_iff, hcall, hnone] at hold
    cases hold
  refine ⟨?_, fun other => ?_⟩
  · rw [List.map_append, List.map_singleton, List.nodup_append]
    refine ⟨h.nodup, List.pairwise_singleton _ _, fun n hn m hm hnm => ?_⟩
    rw [List.mem_singleton.mp hm] at hnm
    exact hfresh (hnm ▸ hn)
  · rw [List.mem_append, List.mem_singleton]
    by_cases hcall : other.call = event.call
    · rw [hcall, hnew, Option.some.injEq]
      constructor
      · rintro (hold | rfl)
        · exact absurd (hcall ▸ List.mem_map_of_mem hold) hfresh
        · rfl
      · rintro rfl
        exact .inr rfl
    · rw [hrest _ hcall, ← h.mem_iff]
      constructor
      · rintro (hold | rfl)
        · exact hold
        · exact absurd rfl hcall
      · exact .inl

/-- What a step of one call brings to light. -/
theorem news (h : Ledger told log) {n : Nat} {request : Request} {p q : Progress}
    (hp : told n = Event.of? n request p) (hq : told' n = Event.of? n request q)
    (hkept : Event.of? n request p = none ∨ Event.of? n request q = Event.of? n request p)
    (hrest : ∀ m, m ≠ n → told' m = told m) : Ledger told' (log ++ Event.news n request p q) := by
  by_cases hsame : Event.of? n request q = Event.of? n request p
  · have htold : told' = told := by
      funext m
      by_cases hm : m = n
      · rw [hm, hq, hsame, hp]
      · exact hrest m hm
    rwa [Event.news_of_same hsame, List.append_nil, htold]
  · have hnone := hkept.resolve_right hsame
    cases hnew : Event.of? n request q with
    | none => exact absurd (hnew.trans hnone.symm) hsame
    | some event =>
      obtain rfl := Event.call_of? hnew
      rw [Event.news, hnone, hnew]
      exact h.note (hp.trans hnone) (hq.trans hnew) hrest

end Ledger

/-- What is told of a draft by what was put into it and taken from it. -/
inductive Told (d : Draft) : List Event → Prop where
  | open {log : List Event} : d.finalized = false → d.Keyed → d.records.values = Event.records log →
      d.writes = Event.writes log → (∀ n rs ws, .took n rs ws ∉ log) → Told d log
  | closed {log : List Event} {n : Nat} : d.finalized = true → (∀ m rs ws, .took m rs ws ∉ log) →
      Told d (log ++ [.took n (Event.records log) (Event.writes log)])

/-- How far a finalization may have come. -/
inductive Finalizing (d : Draft) : Progress → Prop where
  | begun : Finalizing d .begun
  | taken (records : List Record) (writes : List StoreWrite)
      (outcome : Option (Except StoreError Unit)) :
      Finalizing d (.taken records writes outcome)
  | refused : d.finalized = true → Finalizing d (.returned (.error .alreadyFinalized))

/-- **The account of a draft** and of the calls on it. -/
structure Accounted (s : State σ τ) (log : List Event) : Prop where
  ledger : Ledger s.event? log
  draft : Told s.execution.draft log
  /-- No two initializations staged records with one id. -/
  distinct : ∀ m n r q, .staged m r ∈ log → .staged n q ∈ log → r.id = q.id → m = n
  finalizing : ∀ (n : Nat) (p : Progress), s.calls[n]? = some (.finalize, p) →
    Finalizing s.execution.draft p

theorem Acts.finalized {request : Request} {p q : Progress} {d f : Draft} (h : Acts request p d q f)
    (hd : d.finalized = true) : f.finalized = true := by
  cases h with
  | stages hopen => exact hd
  | writes hopen => exact hd
  | takes => rfl
  | idle | passes | refuses | commits => exact hd

/-- A call of which something is told is done, or commits. -/
theorem Acts.kept {request : Request} {p q : Progress} {d f : Draft}
    (h : Acts request p d q f) (n : Nat) :
    Event.of? n request p = none ∨ Event.of? n request q = Event.of? n request p := by
  cases h with
  | idle | commits => exact .inr rfl
  | passes _ hp _ => exact .inl (hp n)
  | stages | writes | takes | refuses => exact .inl rfl

theorem Told.of_open {d : Draft} {log : List Event} (h : Told d log) (hopen : d.finalized = false) :
    d.Keyed ∧ d.records.values = Event.records log ∧ d.writes = Event.writes log ∧
      ∀ n rs ws, .took n rs ws ∉ log := by
  cases h with
  | «open» _ hkeyed hrecords hwrites hnone => exact ⟨hkeyed, hrecords, hwrites, hnone⟩
  | closed hclosed =>
    rw [hopen] at hclosed
    cases hclosed

/-- **What a step does to the draft is what it brings to light.** -/
theorem Acts.told {request : Request} {p q : Progress} {d f : Draft}
    (h : Acts request p d q f) (n : Nat)
    {log : List Event} (hd : Told d log) : Told f (log ++ Event.news n request p q) := by
  cases h with
  | idle => rwa [Event.news_of_same rfl, List.append_nil]
  | passes _ hp hq => rwa [Event.news_of_none (hp n) (hq n), List.append_nil]
  | refuses | commits =>
    show Told d (log ++ [])
    rwa [List.append_nil]
  | @stages r q d hopen hnew =>
    obtain ⟨hkeyed, hrecords, hwrites, hnone⟩ := hd.of_open hopen
    refine .open hopen (hkeyed.stage hnew) ?_ ?_ fun m rs ws =>
      List.not_mem_append (hnone m rs ws) (by simp [Event.news, Event.of?])
    · show (d.records.insert q.id q).values = Event.records (log ++ [.staged n q])
      rw [Table.values_insert_of_absent q hnew, hrecords, Event.records_append]
      rfl
    · show d.writes = Event.writes (log ++ [.staged n q])
      rw [hwrites, Event.writes_append]
      exact (List.append_nil _).symm
  | @writes id caller key value r d hopen =>
    obtain ⟨hkeyed, hrecords, hwrites, hnone⟩ := hd.of_open hopen
    refine .open hopen hkeyed ?_ ?_ fun m rs ws =>
      List.not_mem_append (hnone m rs ws) (by simp [Event.news, Event.of?])
    · show d.records.values = Event.records (log ++ [.wrote n ⟨r, caller, key, value⟩])
      rw [hrecords, Event.records_append]
      exact (List.append_nil _).symm
    · show d.writes ++ [⟨r, caller, key, value⟩] =
        Event.writes (log ++ [.wrote n ⟨r, caller, key, value⟩])
      rw [hwrites, Event.writes_append]
      rfl
  | takes hopen =>
    obtain ⟨-, hrecords, hwrites, hnone⟩ := hd.of_open hopen
    show Told d.emptied (log ++ [.took n d.records.values d.writes])
    rw [hrecords, hwrites]
    exact .closed rfl hnone

/-- A record is staged where none with its id is. -/
theorem Acts.new_of_staged {request : Request} {p q : Progress} {d f : Draft}
    (h : Acts request p d q f) {k n : Nat} {r : Record}
    (hmem : .staged n r ∈ Event.news k request p q) :
    n = k ∧ d.finalized = false ∧ d.records.find? r.id = none := by
  cases h with
  | idle =>
    rw [Event.news_of_same rfl] at hmem
    cases hmem
  | passes _ hp hq =>
    rw [Event.news_of_none (hp k) (hq k)] at hmem
    cases hmem
  | refuses | commits => cases hmem
  | stages hopen hnew =>
    cases List.mem_singleton.mp hmem
    exact ⟨rfl, hopen, hnew⟩
  | writes => cases List.mem_singleton.mp hmem
  | takes => cases List.mem_singleton.mp hmem

theorem mem_records {log : List Event} {n : Nat} {r : Record} (h : .staged n r ∈ log) :
    r ∈ Event.records log := List.mem_filterMap.mpr ⟨_, h, rfl⟩

theorem Acts.distinct {request : Request} {p q : Progress} {d f : Draft}
    (h : Acts request p d q f) (k : Nat) {log : List Event} (hd : Told d log)
    (hold : ∀ m n r s, .staged m r ∈ log → .staged n s ∈ log → r.id = s.id → m = n) (m n : Nat)
    (r s : Record) (hr : .staged m r ∈ log ++ Event.news k request p q)
    (hs : .staged n s ∈ log ++ Event.news k request p q) (hid : r.id = s.id) : m = n := by
  -- a record in the log is staged still, as long as another one can be
  have hstaged : ∀ {n : Nat} {r : Record}, .staged n r ∈ log → d.finalized = false →
      d.records.find? r.id ≠ none := by
    intro n r hmem hopen hnone
    obtain ⟨hkeyed, hrecords, -, -⟩ := hd.of_open hopen
    refine hkeyed.not_mem hnone (List.mem_map.mpr ⟨r, ?_, rfl⟩)
    rw [hrecords]
    exact mem_records hmem
  rcases List.mem_append.mp hr with hr | hr <;> rcases List.mem_append.mp hs with hs | hs
  · exact hold m n r s hr hs hid
  · obtain ⟨-, hopen, hnew⟩ := h.new_of_staged hs
    exact absurd (hid ▸ hnew) (hstaged hr hopen)
  · obtain ⟨-, hopen, hnew⟩ := h.new_of_staged hr
    exact absurd (hid ▸ hnew) (hstaged hs hopen)
  · rw [(h.new_of_staged hr).1, (h.new_of_staged hs).1]

/-- Where a finalization stands after a step of a call. -/
theorem Acts.finalizing {p q : Progress} {d f : Draft} (h : Acts .finalize p d q f)
    (hp : Finalizing d p) :
    Finalizing f q := by
  cases h with
  | idle => exact hp
  | passes hne => exact absurd rfl hne
  | takes => exact .taken _ _ _
  | refuses hclosed => exact .refused hclosed
  | commits => exact .taken _ _ _

theorem Finalizing.mono {d f : Draft} {p : Progress} (h : Finalizing d p)
    (hf : d.finalized = true → f.finalized = true) : Finalizing f p := by
  cases h with
  | begun => exact .begun
  | taken => exact .taken _ _ _
  | refused hclosed => exact .refused (hf hclosed)

namespace Accounted

variable {s : State σ τ} {log : List Event}

/-- A step of a call keeps the account. -/
theorem call (h : Accounted s log) {n : Nat} {request : Request} {p : Progress}
    (hn : s.calls[n]? = some (request, p)) :
    let y := step e request p s.execution
    Accounted ⟨y.2, s.calls.set n (request, y.1)⟩ (log ++ Event.news n request p y.1) := by
  intro y
  have hacts : Acts request p s.execution.draft y.1 y.2.draft := step_acts s.execution request p
  have hlt : n < s.calls.length := (List.getElem?_eq_some_iff.mp hn).1
  refine ⟨?_, hacts.told n h.draft, hacts.distinct n h.draft h.distinct, fun m q hm => ?_⟩
  · refine h.ledger.news (p := p) (by rw [State.event?, hn]; rfl) ?_ (hacts.kept n) fun m hm => ?_
    · rw [State.event?, List.getElem?_set_self hlt]
      rfl
    · rw [State.event?, List.getElem?_set_ne (Ne.symm hm), State.event?]
  · by_cases hmn : m = n
    · subst hmn
      rw [List.getElem?_set_self hlt] at hm
      obtain ⟨rfl, rfl⟩ := Prod.mk.inj (Option.some.inj hm)
      exact hacts.finalizing (h.finalizing m p hn)
    · rw [List.getElem?_set_ne (Ne.symm hmn)] at hm
      exact (h.finalizing m q hm).mono hacts.finalized

/-- **Every move keeps the account.** -/
theorem next (h : Accounted s log) (move : Move σ τ) :
    Accounted (next e s move) (log ++ noted e s move) := by
  cases move with
  | engine _ =>
    show Accounted _ (log ++ [])
    rw [List.append_nil]
    exact ⟨h.ledger, h.draft, h.distinct, h.finalizing⟩
  | call n =>
    rw [Race.next, noted]
    cases hn : s.calls[n]? with
    | none =>
      show Accounted s (log ++ [])
      rwa [List.append_nil]
    | some c => exact h.call hn

/-- **Every run keeps the account.** -/
theorem run (h : Accounted s log) (moves : List (Move σ τ)) :
    Accounted (run e s moves) (log ++ Race.log e s moves) := by
  induction moves generalizing s log with
  | nil => rwa [Race.log, List.append_nil]
  | cons move moves ih =>
    rw [Race.log, ← List.append_assoc]
    exact ih (h.next move)

theorem start (engine : Engine.State σ τ) (tx : Transaction) (requests : List Request) :
    Accounted (Race.start engine tx requests) [] := by
  have hbegun : ∀ (n : Nat) c, (Race.start engine tx requests).calls[n]? = some c →
      c.2 = .begun := by
    intro n c hc
    obtain ⟨request, -, rfl⟩ := List.mem_map.mp (List.mem_of_getElem? hc)
    rfl
  have hnone : ∀ n, (Race.start engine tx requests).event? n = none := by
    intro n
    rw [State.event?, Option.bind_eq_none_iff]
    rintro ⟨request, p⟩ hc
    obtain rfl : p = .begun := hbegun n _ hc
    cases request <;> rfl
  refine ⟨⟨List.nodup_nil, fun event => ?_⟩, .open rfl (keyed_begin tx) rfl rfl
    fun _ _ _ => List.not_mem_nil, fun _ _ _ _ hr => absurd hr List.not_mem_nil, ?_⟩
  · rw [hnone]
    exact ⟨nofun, nofun⟩
  · intro n p hp
    obtain rfl : p = .begun := hbegun n _ hp
    exact .begun

/-! ### What the account says -/

theorem mem_iff (h : Accounted s log) {n : Nat} {event : Event} (hcall : event.call = n) :
    event ∈ log ↔ ∃ request p, s.calls[n]? = some (request, p) ∧
      Event.of? n request p = some event := by
  rw [h.ledger.mem_iff, hcall, State.event?, Option.bind_eq_some_iff]
  exact ⟨fun ⟨c, hc, hevent⟩ => ⟨c.1, c.2, hc, hevent⟩, fun ⟨_, _, hc, hevent⟩ => ⟨_, hc, hevent⟩⟩

theorem staged_iff (h : Accounted s log) (n : Nat) (r : Record) :
    .staged n r ∈ log ↔ ∃ q, s.calls[n]? = some (.init q, .returned (.ok r)) := by
  rw [h.mem_iff rfl]
  constructor
  · rintro ⟨request, p, hc, hevent⟩
    unfold Event.of? at hevent
    split at hevent <;> cases hevent
    exact ⟨_, hc⟩
  · rintro ⟨q, hc⟩
    exact ⟨_, _, hc, rfl⟩

theorem wrote_iff (h : Accounted s log) (n : Nat) (w : StoreWrite) : .wrote n w ∈ log ↔
    ∃ id, s.calls[n]? = some (.store id w.caller w.key w.value, .returned (.ok w.record)) := by
  rw [h.mem_iff rfl]
  constructor
  · rintro ⟨request, p, hc, hevent⟩
    unfold Event.of? at hevent
    split at hevent <;> cases hevent
    exact ⟨_, hc⟩
  · rintro ⟨id, hc⟩
    exact ⟨_, _, hc, rfl⟩

theorem took_iff (h : Accounted s log) (n : Nat) (rs : List Record) (ws : List StoreWrite) :
    .took n rs ws ∈ log ↔ ∃ out, s.calls[n]? = some (.finalize, .taken rs ws out) := by
  rw [h.mem_iff rfl]
  constructor
  · rintro ⟨request, p, hc, hevent⟩
    unfold Event.of? at hevent
    split at hevent <;> cases hevent
    exact ⟨_, hc⟩
  · rintro ⟨out, hc⟩
    exact ⟨_, _, hc, rfl⟩

end Accounted

/-- **What was taken is all there ever was**, and one call took it. -/
theorem Told.batch {d : Draft} {log : List Event} (h : Told d log) {n : Nat} {rs : List Record}
    {ws : List StoreWrite} (hmem : .took n rs ws ∈ log) :
      d.finalized = true ∧ rs = Event.records log ∧
      ws = Event.writes log ∧ ∀ m qs vs, .took m qs vs ∈ log → m = n := by
  cases h with
  | «open» _ _ _ _ hnone => exact absurd hmem (hnone n rs ws)
  | @closed past k hclosed hnone =>
    have hlast : ∀ {m : Nat} {qs : List Record} {vs : List StoreWrite},
        .took m qs vs ∈ past ++ [.took k (Event.records past) (Event.writes past)] →
        m = k ∧ qs = Event.records past ∧ vs = Event.writes past := by
      intro m qs vs hm
      rcases List.mem_append.mp hm with hm | hm
      · exact absurd hm (hnone m qs vs)
      · cases List.mem_singleton.mp hm
        exact ⟨rfl, rfl, rfl⟩
    obtain ⟨rfl, rfl, rfl⟩ := hlast hmem
    refine ⟨hclosed, ?_, ?_, fun m qs vs hm => (hlast hm).1⟩
    · rw [Event.records_append]
      exact (List.append_nil _).symm
    · rw [Event.writes_append]
      exact (List.append_nil _).symm

/-- A call brings nothing to light that makes a step after the draft was closed. -/
theorem Acts.news_of_finalized {request : Request} {p q : Progress} {d f : Draft}
    (h : Acts request p d q f) (hd : d.finalized = true) (n : Nat) :
    Event.news n request p q = [] := by
  cases h with
  | idle => exact Event.news_of_same rfl
  | passes _ hp hq => exact Event.news_of_none (hp n) (hq n)
  | refuses | commits => rfl
  | stages hopen | writes hopen | takes hopen =>
    rw [hopen] at hd
    cases hd

/-- **Nothing is put into a draft after it was taken**, nor taken from it. -/
theorem log_of_finalized {s : State σ τ} (h : s.execution.draft.finalized = true)
    (moves : List (Move σ τ)) : log e s moves = [] := by
  induction moves generalizing s with
  | nil => rfl
  | cons move moves ih =>
    have hmove : noted e s move = [] ∧ (next e s move).execution.draft.finalized = true := by
      cases move with
      | engine _ => exact ⟨rfl, h⟩
      | call n =>
        rw [noted, next]
        cases s.calls[n]? with
        | none => exact ⟨rfl, h⟩
        | some c =>
          have hacts := step_acts (e := e) s.execution c.1 c.2
          exact ⟨hacts.news_of_finalized h n, hacts.finalized h⟩
    rw [log, hmove.1, ih hmove.2]
    rfl

/-! ## What racing calls come to -/

/-- **What calls on one draft have come to.** -/
structure Conserved (s : State σ τ) (log : List Event) : Prop where
  /-- Every call puts something into the draft, or takes what is in it, at most once. -/
  once : (log.map Event.call).Nodup
  /-- An initialization returns a record just if it staged it. -/
  staged : ∀ (n : Nat) (r : Record),
    .staged n r ∈ log ↔ ∃ q, s.calls[n]? = some (.init q, .returned (.ok r))
  /-- A store returns a record just if it wrote under it. -/
  wrote : ∀ (n : Nat) (w : StoreWrite), .wrote n w ∈ log ↔
    ∃ id, s.calls[n]? = some (.store id w.caller w.key w.value, .returned (.ok w.record))
  /-- A finalization commits what it took. -/
  took : ∀ (n : Nat) (rs : List Record) (ws : List StoreWrite),
    .took n rs ws ∈ log ↔ ∃ out, s.calls[n]? = some (.finalize, .taken rs ws out)
  /-- What is taken is all that was staged and written, in order, and no
  other call takes anything. -/
  batch : ∀ (n : Nat) (rs : List Record) (ws : List StoreWrite), .took n rs ws ∈ log →
    rs = Event.records log ∧ ws = Event.writes log ∧ ∀ m qs vs, .took m qs vs ∈ log → m = n
  /-- For each id at most one initialization returns a record. -/
  distinct : ∀ m n r q, .staged m r ∈ log → .staged n q ∈ log → r.id = q.id → m = n
  /-- A finalization that took nothing is told that another one did. -/
  refused : ∀ (n : Nat) (result : Except StoreError Record),
    s.calls[n]? = some (.finalize, .returned result) → result = .error .alreadyFinalized

/-- Whether a finalization has made its first step. -/
def State.Finalizes (s : State σ τ) : Prop :=
  ∃ (n : Nat) (p : Progress), s.calls[n]? = some (.finalize, p) ∧ p ≠ .begun

namespace Accounted

variable {s : State σ τ} {log : List Event} (h : Accounted s log)
include h

theorem conserved : Conserved s log where
  once := h.ledger.nodup
  staged := h.staged_iff
  wrote := h.wrote_iff
  took := h.took_iff
  batch _ _ _ hmem := (h.draft.batch hmem).2
  distinct := h.distinct
  refused n result hn := by
    cases h.finalizing n _ hn with
    | refused => rfl

/-- The draft is closed just if a finalization has made its first step. -/
theorem finalized_iff : s.execution.draft.finalized = true ↔ s.Finalizes := by
  constructor
  · intro hclosed
    cases h.draft with
    | «open» hopen =>
      rw [hopen] at hclosed
      cases hclosed
    | @closed past n _ _ =>
      have hlast : .took n (Event.records past) (Event.writes past) ∈
          past ++ [.took n (Event.records past) (Event.writes past)] :=
        List.mem_append_right _ (List.mem_singleton_self _)
      obtain ⟨out, hn⟩ := (h.took_iff _ _ _).mp hlast
      exact ⟨n, _, hn, nofun⟩
  · rintro ⟨n, p, hn, hp⟩
    cases h.finalizing n p hn with
    | begun => exact absurd rfl hp
    | taken rs ws out => exact (h.draft.batch ((h.took_iff n rs ws).mpr ⟨out, hn⟩)).1
    | refused hclosed => exact hclosed

theorem next_of_finalizes {n : Nat} (hn : s.calls[n]? = some (.finalize, .begun))
    (hs : s.Finalizes) :
    (Race.next e s (.call n)).calls[n]? =
      some (.finalize, .returned (.error .alreadyFinalized)) := by
  have hclosed := h.finalized_iff.mpr hs
  have hlt : n < s.calls.length := (List.getElem?_eq_some_iff.mp hn).1
  rw [Race.next, hn]
  simp only [step_finalize_of_finalized s.execution hclosed]
  exact List.getElem?_set_self hlt

theorem next_of_not_finalizes {n : Nat} (hn : s.calls[n]? = some (.finalize, .begun))
    (hs : ¬ s.Finalizes) :
    (Race.next e s (.call n)).calls[n]? =
      some (.finalize, .taken (Event.records log) (Event.writes log) none) := by
  have hopen : s.execution.draft.finalized = false :=
    Bool.eq_false_iff.mpr fun hclosed => hs (h.finalized_iff.mp hclosed)
  have hlt : n < s.calls.length := (List.getElem?_eq_some_iff.mp hn).1
  obtain ⟨-, hrecords, hwrites, -⟩ := h.draft.of_open hopen
  rw [Race.next, hn, ← hrecords, ← hwrites]
  simp only [step_finalize_of_open s.execution hopen]
  exact List.getElem?_set_self hlt

end Accounted

/-- **Racing calls lose and duplicate nothing.**  Whatever calls are made on a fresh draft, in
whatever order they make their steps and whatever is done to the engine meanwhile, every call has
what it returned in the draft or in the batch, once; the first finalization to make its first step
takes all that was staged and written until then, and every other one is refused in that step; and
from then on no call puts anything into the draft. -/
theorem racing_calls (engine : Engine.State σ τ) (tx : Transaction) (requests : List Request)
    (moves : List (Move σ τ)) :
    let s := run e (start engine tx requests) moves
    let told := log e (start engine tx requests) moves
    Conserved s told ∧
      (∀ n, s.calls[n]? = some (.finalize, .begun) → ¬ s.Finalizes →
        (next e s (.call n)).calls[n]? =
        some (.finalize, .taken (Event.records told) (Event.writes told) none)) ∧
      (∀ n, s.calls[n]? = some (.finalize, .begun) → s.Finalizes → (next e s (.call n)).calls[n]? =
        some (.finalize, .returned (.error .alreadyFinalized))) ∧
      ∀ n rs ws more, .took n rs ws ∈ told →
        log e (start engine tx requests) (moves ++ more) = told := by
  intro s told
  have haccount : Accounted s told := (Accounted.start engine tx requests).run moves
  refine ⟨haccount.conserved, fun n hn hs => haccount.next_of_not_finalizes hn hs,
    fun n hn hs => haccount.next_of_finalizes hn hs, fun n rs ws more hmem => ?_⟩
  rw [log_append, log_of_finalized (haccount.draft.batch hmem).1, List.append_nil]

/-- A record that is committed, with an id of its own choice. -/
private def memo : Record :=
  { Record.fresh Octets.zero 0 [Sample.account] [] "memo" with id := Octets.replicate 16 1 }

/-- Of two values that are written at once, one is found to be too late behind its second step. -/
example :
    let engine := Sample.engine Octets.zero false
    let write (value : Bytes) : Request := .store memo.id Sample.account "k" value
    let s := start (.initial (Memory.empty.withRecord memo) Hub.empty) Sample.tx
      [write [1], write [2], .finalize, .finalize]
    let moves : List (Move Memory (Hub Message)) := [0, 1, 0, 1, 0, 0, 2, 1, 3, 1].map .call
    log engine s moves =
        [.wrote 0 ⟨memo, Sample.account, "k", [1]⟩, .took 2 [] [⟨memo, Sample.account, "k", [1]⟩]] ∧
      (run engine s moves).calls.map (·.2) =
        [.returned (.ok memo), .returned (.error .alreadyFinalized),
          .taken [] [⟨memo, Sample.account, "k", [1]⟩] none,
          .returned (.error .alreadyFinalized)] :=
  ⟨rfl, rfl⟩

end SealedStore.Race
