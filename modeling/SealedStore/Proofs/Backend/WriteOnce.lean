import SealedStore.Proofs.Backend.History
import SealedStore.Proofs.Backend.Listing

/-! # Records are written once

Whoever initializes a record first has it for good: it is fetched as it was initialized after
whatever calls follow, another initialization with its id is refused, and no later answer tells that
it was tried (`Backend.Immutable`).  Nothing is asked of ids, keys or values, which may be those of
the store itself: a value under the mempool record may spoil a list, so that an initialization fails
behind its first write, but no key of a value is the key of a record.

What one call does to the records that are found is stated first (`Backend.WriteOnce`), and what
sequences of calls do follows from that for every backend (`Backend.WriteOnce.immutable`).
-/
namespace SealedStore

open Step

variable {σ : Type}

namespace Backend

/-! ## What is promised of sequences of calls -/

/-- The record that a call initialized, if it is such a call and succeeded. -/
def Call.made? : Call × Except StoreError Answer → Option Record
  | (.init r, .ok _) => some r
  | _ => none

/-- The records of which an initialization succeeded, in the order of the calls. -/
def initialized (b : Backend σ) (calls : List Call) (s : σ) : List Record :=
  (calls.zip (b.answers calls s)).filterMap Call.made?

/-- **The first record with an id is the only one**, from whatever state and
through whatever calls. -/
structure Immutable (b : Backend σ) : Prop where
  /-- For each id at most one initialization succeeds. -/
  once : ∀ calls s, ((b.initialized calls s).map Record.id).Nodup
  /-- A record that was initialized is found after whatever calls follow. -/
  found : ∀ r s calls, (b.init r).outcome s = .ok () →
    (b.fetch r.id).outcome (b.afterAll (.init r :: calls) s) = .ok r
  /-- Another record with its id is refused then, and whatever calls follow are answered as if it
  had not been tried. -/
  refused : ∀ r q s calls more, (b.init r).outcome s = .ok () → q.id = r.id →
    b.answers (.init q :: more) (b.afterAll (.init r :: calls) s) =
      .error (.recordAlreadyPresent r.id) :: b.answers more (b.afterAll (.init r :: calls) s)
  /-- Storing a value neither changes a record nor makes one. -/
  stored : ∀ r key value id s,
    (b.fetch id).outcome ((b.store r key value).after s) = (b.fetch id).outcome s

/-! ## What one call does -/

/-- **What makes records immutable**, one call at a time. -/
structure WriteOnce (b : Backend σ) : Prop where
  init : ∀ r s, (b.init r).outcome s = .ok () → (b.fetch r.id).outcome ((b.init r).after s) = .ok r
  keeps : ∀ id r call, Keeps (fun s => (b.fetch id).outcome s = .ok r) (b.answer call)
  refused : ∀ r q s, (b.fetch r.id).outcome s = .ok r → q.id = r.id →
    (b.init q).outcome s = .error (.recordAlreadyPresent r.id) ∧
      ∀ more, b.answers more ((b.init q).after s) = b.answers more s
  stored : ∀ r key value id s,
    (b.fetch id).outcome ((b.store r key value).after s) = (b.fetch id).outcome s

variable {b : Backend σ}

theorem answer_init (r : Record) (s : σ) :
    b.answer (.init r) s = (((b.init r).outcome s).map fun _ => .done, (b.init r).after s) :=
  map_apply _ _ s

theorem outcome_answer_init (r : Record) (s : σ) :
    (b.answer (.init r)).outcome s = ((b.init r).outcome s).map fun _ => .done :=
  congrArg Prod.fst (answer_init r s)

theorem after_answer_init (r : Record) (s : σ) :
    (b.answer (.init r)).after s = (b.init r).after s :=
  congrArg Prod.snd (answer_init r s)

theorem initialized_of_ok {r : Record} {calls : List Call} {s : σ}
    (h : (b.init r).outcome s = .ok ()) :
    b.initialized (.init r :: calls) s = r :: b.initialized calls ((b.init r).after s) := by
  have hmade : Call.made? (.init r, (b.answer (.init r)).outcome s) = some r := by
    rw [outcome_answer_init, h]
    rfl
  rw [initialized, answers, List.zip_cons_cons, List.filterMap_cons_some hmade, after_answer_init]
  rfl

/-- A call that initializes nothing adds nothing. -/
theorem initialized_of_not {call : Call} {calls : List Call} {s : σ}
    (h : ∀ r, call = .init r → (b.init r).outcome s ≠ .ok ()) :
    b.initialized (call :: calls) s = b.initialized calls ((b.answer call).after s) := by
  have hmade : Call.made? (call, (b.answer call).outcome s) = none := by
    cases call with
    | init r =>
      rw [outcome_answer_init]
      cases hout : (b.init r).outcome s with
      | ok _ => exact absurd hout (h r rfl)
      | error e => rfl
    | _ => rfl
  rw [initialized, answers, List.zip_cons_cons, List.filterMap_cons_none hmade]
  rfl

/-- What every operation keeps every call keeps. -/
theorem keeps_answer {P : σ → Prop} (hstart : Keeps P b.start) (hstop : Keeps P b.stop)
    (hinit : ∀ r, Keeps P (b.init r)) (hstore : ∀ r key value, Keeps P (b.store r key value))
    (hretrieve : ∀ r key, Keeps P (b.retrieve r key)) (hfetch : ∀ id, Keeps P (b.fetch id))
    (hlist : ∀ block space, Keeps P (b.list block space)) (call : Call) :
    Keeps P (b.answer call) := by
  cases call with
  | start => exact .bind hstart fun _ => .pure fun _ hs => hs
  | stop => exact .bind hstop fun _ => .pure fun _ hs => hs
  | init r => exact .bind (hinit r) fun _ => .pure fun _ hs => hs
  | store r key value => exact .bind (hstore r key value) fun _ => .pure fun _ hs => hs
  | retrieve r key => exact .bind (hretrieve r key) fun _ => .pure fun _ hs => hs
  | fetch id => exact .bind (hfetch id) fun _ => .pure fun _ hs => hs
  | list block space => exact .bind (hlist block space) fun _ => .pure fun _ hs => hs

/-- Backends whose calls run alike give the same answers. -/
theorem answers_eq_of_simulates {ρ : Type} {T : σ → ρ → Prop} {d : Backend ρ}
    (h : ∀ call, Step.Simulates T (b.answer call) (d.answer call))
    (calls : List Call) {s : σ} {t : ρ} (hs : T s t) : d.answers calls t = b.answers calls s := by
  induction calls generalizing s t with
  | nil => rfl
  | cons call calls ih =>
    obtain ⟨hout, hafter⟩ := h call s t hs
    rw [answers, answers, hout, ih hafter]

/-! ## What sequences of calls do -/

namespace WriteOnce

variable (h : b.WriteOnce)
include h

/-- **A record that is found is found for good.** -/
theorem found_afterAll {id : RecordId} {r : Record} {s : σ} (hs : (b.fetch id).outcome s = .ok r)
    (calls : List Call) : (b.fetch id).outcome (b.afterAll calls s) = .ok r := by
  induction calls generalizing s with
  | nil => exact hs
  | cons call calls ih => exact ih ((h.keeps id r call).after hs)

/-- No record is initialized under the id of one that is found. -/
theorem id_notMem_initialized {r : Record} {s : σ} (hs : (b.fetch r.id).outcome s = .ok r)
    (calls : List Call) : r.id ∉ (b.initialized calls s).map Record.id := by
  induction calls generalizing s with
  | nil => exact List.not_mem_nil
  | cons call calls ih =>
    have hrest := ih ((h.keeps r.id r call).after hs)
    by_cases hinit : ∃ q, call = .init q ∧ (b.init q).outcome s = .ok ()
    · obtain ⟨q, rfl, hq⟩ := hinit
      have hne : r.id ≠ q.id := by
        intro hid
        rw [(h.refused r q s hs hid.symm).1] at hq
        cases hq
      rw [initialized_of_ok hq, List.map_cons, List.mem_cons, ← after_answer_init]
      exact not_or.mpr ⟨hne, hrest⟩
    · rw [initialized_of_not fun q hcall hq => hinit ⟨q, hcall, hq⟩]
      exact hrest

theorem nodup_initialized (calls : List Call) (s : σ) :
    ((b.initialized calls s).map Record.id).Nodup := by
  induction calls generalizing s with
  | nil => exact List.nodup_nil
  | cons call calls ih =>
    by_cases hinit : ∃ r, call = .init r ∧ (b.init r).outcome s = .ok ()
    · obtain ⟨r, rfl, hr⟩ := hinit
      rw [initialized_of_ok hr, List.map_cons, List.nodup_cons]
      exact ⟨h.id_notMem_initialized (h.init r s hr) calls, ih _⟩
    · rw [initialized_of_not fun r hcall hr => hinit ⟨r, hcall, hr⟩]
      exact ih _

/-- **What holds of every call holds of every sequence of calls.** -/
theorem immutable : b.Immutable := by
  have hfound : ∀ r s calls, (b.init r).outcome s = .ok () →
      (b.fetch r.id).outcome (b.afterAll (.init r :: calls) s) = .ok r := by
    intro r s calls hr
    have hinit := h.init r s hr
    rw [← after_answer_init] at hinit
    exact h.found_afterAll hinit calls
  refine ⟨h.nodup_initialized, hfound, fun r q s calls more hr hid => ?_, h.stored⟩
  obtain ⟨hout, hsame⟩ := h.refused r q _ (hfound r s calls hr) hid
  rw [answers, outcome_answer_init, hout, after_answer_init, hsame]
  rfl

end WriteOnce

end Backend

/-! ## Records in memory -/

namespace Memory

theorem record_eq_ok_iff {m : Memory} {id : RecordId} {r : Record} :
    m.record id = .ok r ↔ m.contents.records id = some r := by
  show _ ↔ m.records.find? id = some r
  unfold record
  cases m.records.find? id <;> simp

theorem record_withRecord (m : Memory) (r : Record) : (m.withRecord r).record r.id = .ok r := by
  rw [record_eq_ok_iff, contents_withRecord]
  exact if_pos rfl

/-- A memory with a new record has those that it had. -/
theorem record_withRecord_of_ok {m : Memory} {q r : Record} {id : RecordId}
    (hq : m.contents.records q.id = none) (hr : m.record id = .ok r) :
    (m.withRecord q).record id = .ok r := by
  rw [record_eq_ok_iff] at hr ⊢
  have hne : q.id ≠ id := by
    rintro rfl
    rw [hq] at hr
    cases hr
  rw [contents_withRecord]
  exact (if_neg hne).trans hr

theorem init_keeps (id : RecordId) (q r : Record) :
    Keeps (·.record id = .ok r) (backend.init q) := by
  intro m hm
  by_cases hpresent : m.contents.records q.id = none
  · rw [show backend.init q m = _ from init_of_absent hpresent]
    exact record_withRecord_of_ok hpresent hm
  · rw [show backend.init q m = _ from init_of_present hpresent]
    exact hm

/-- What only reads, and what writes a value, leaves the table of records alone. -/
theorem keeps_of_records {α : Type} {m : Step Memory α} (hm : ∀ s, (m.after s).records = s.records)
    (id : RecordId) (r : Record) : Keeps (·.record id = .ok r) m := by
  have hrecord : ∀ s, (m.after s).record id = s.record id := by
    intro s
    rw [record, record, hm]
  exact .of_cases (fun s _ hs _ => (hrecord s).trans hs) fun s _ hs _ => (hrecord s).trans hs

/-- **The memory keeps records as they were initialized.** -/
theorem writeOnce : backend.WriteOnce where
  init r m hr := by
    by_cases hpresent : m.contents.records r.id = none
    · rw [after, show backend.init r m = _ from init_of_absent hpresent]
      exact record_withRecord m r
    · rw [outcome, show backend.init r m = _ from init_of_present hpresent] at hr
      cases hr
  keeps id r call := by
    have hkept : ∀ {α : Type} {m : Step Memory α}, (∀ s, (m.after s).records = s.records) →
        Keeps (·.record id = .ok r) m := fun hm => keeps_of_records hm id r
    exact Backend.keeps_answer (hkept fun _ => rfl) (hkept fun _ => rfl)
      (fun q => init_keeps id q r) (fun _ _ _ => hkept fun _ => rfl)
      (fun _ _ => hkept fun _ => rfl) (fun _ => hkept fun _ => rfl)
      (fun _ _ => hkept fun _ => rfl) call
  refused r q m hr hid := by
    have hpresent : m.contents.records q.id ≠ none := by
      rw [hid, record_eq_ok_iff.mp hr]
      exact Option.some_ne_none r
    rw [outcome, after, show backend.init q m = _ from init_of_present hpresent, hid]
    exact ⟨rfl, fun _ => rfl⟩
  stored _ _ _ _ _ := rfl

end Memory

/-! ## Records over a key-value store -/

namespace KeyValue

variable {kv : KeyValue σ}

/-- Whether `P` is kept by everything that the backend asks of the store: values are put under the
keys of values, and records under keys of records where nothing is. -/
structure Maintains (kv : KeyValue σ) (P : σ → Prop) : Prop where
  start : Keeps P kv.start
  stop : Keeps P kv.stop
  get : ∀ k, Keeps P (kv.get k)
  put : ∀ id key v, Keeps P (kv.put (valueKey id key) v)
  putIfAbsent : ∀ id v, Keeps P (kv.putIfAbsent (recordKey id) v)

namespace Maintains

variable {P : σ → Prop} (h : kv.Maintains P)
include h

theorem store (r : Record) (key : String) (value : Bytes) : Keeps P (kv.store r key value) :=
  store_keeps (h.put r.id key) value

theorem enlist (r : Record) : Keeps P (kv.enlist r) :=
  enlist_keeps h.get (h.put Record.mempool.id _)

theorem init (r : Record) : Keeps P (kv.init r) :=
  .bind (claim_keeps (h.putIfAbsent r.id)) fun _ => h.enlist r

theorem answer (call : Backend.Call) : Keeps P (kv.backend.answer call) :=
  Backend.keeps_answer h.start h.stop h.init h.store (retrieve_keeps h.get) (fetch_keeps h.get)
    (list_keeps h.get) call

end Maintains

/-- Records over two stores that run alike answer alike. -/
theorem Simulates.answer {ρ : Type} {T : σ → ρ → Prop} {l : KeyValue ρ} (h : kv.Simulates T l)
    (hstart : Step.Simulates T kv.start l.start) (hstop : Step.Simulates T kv.stop l.stop)
    (call : Backend.Call) : Step.Simulates T (kv.backend.answer call) (l.backend.answer call) := by
  cases call with
  | start => exact hstart.bind fun _ => .pure _
  | stop => exact hstop.bind fun _ => .pure _
  | init r => exact (h.backend.init r).bind fun _ => .pure _
  | store r key value => exact (h.store r key value).bind fun _ => .pure _
  | retrieve r key => exact (h.retrieve r key).bind fun _ => .pure _
  | fetch id => exact (h.fetch id).bind fun _ => .pure _
  | list block space => exact (h.list block space).bind fun _ => .pure _

theorem recordAt_eq_ok_iff {t : String → Option Bytes} {id : RecordId} {r : Record} :
    recordAt t id = .ok r ↔ ∃ raw, t (recordKey id) = some raw ∧ Record.decode? raw = some r := by
  unfold recordAt
  cases t (recordKey id) with
  | none => simp
  | some raw =>
    show decoded (Record.decode? raw) = _ ↔ _
    cases hraw : Record.decode? raw with
    | none => simp [decoded, hraw]
    | some q => simp [decoded, hraw]

namespace Contract

/-- **The entry of a record stays**: no key of a value is a record's, and where a
record is none is put. -/
theorem maintains_entry {F : StoreError → Prop} (K : kv.Contract F) (id : RecordId) (raw : Bytes) :
    kv.Maintains fun s => K.see s (recordKey id) = some raw := by
  let R : (String → Option Bytes) → Prop := fun t => t (recordKey id) = some raw
  have hvalue : ∀ i key, Bears R (valueKey i key) := fun i key t v ht =>
    (update_of_ne t v (recordKey_ne_valueKey id i key).symm).trans ht
  refine ⟨K.keeps_of_reads (R := R) K.start, K.keeps_of_reads (R := R) K.stop, K.keeps_get (R := R),
    fun i key v => K.keeps_put (hvalue i key) v, fun i v s hs => ?_⟩
  refine (K.putIfAbsent (K.see s) _ v).mono (fun _ hs => hs) (fun made u hu => ?_)
    (fun _ _ hu => hu.2 ▸ hs) s rfl
  cases made with
  | false => exact hu.2 ▸ hs
  | true =>
    obtain ⟨hnone, hu⟩ := hu
    have hne : recordKey i ≠ recordKey id := by
      intro hkey
      rw [hkey, hs] at hnone
      cases hnone
    rw [hu, update_of_ne _ v hne]
    exact hs

variable (K : kv.Contract fun _ => False)

/-- A step whose result and whose effect are told by the entries. -/
theorem simulates_self {α : Type} {m : Step σ α} {a : (String → Option Bytes) → α}
    {f : (String → Option Bytes) → String → Option Bytes}
    (hm : ∀ t, Ensures (K.see · = t) m (fun b s => b = a t ∧ K.see s = f t) fun _ _ => False) :
    Step.Simulates (fun s u => K.see s = K.see u) m m := by
  intro s u hsee
  obtain ⟨_, hs, rfl, hafter⟩ := (hm (K.see s)).exists_ok rfl
  obtain ⟨_, hu, rfl, hafter'⟩ := (hm (K.see s)).exists_ok hsee.symm
  exact ⟨hu.trans hs.symm, hafter.trans hafter'.symm⟩

/-- **Answers depend on the entries alone.** -/
theorem answers_eq_of_see {s u : σ} (hsee : K.see s = K.see u) (calls : List Backend.Call) :
    kv.backend.answers calls u = kv.backend.answers calls s := by
  have hidle : ∀ {m : Step σ Unit},
      (∀ t, Ensures (K.see · = t) m (fun _ s => K.see s = t) fun e s => False ∧ K.see s = t) →
      Step.Simulates (fun s u => K.see s = K.see u) m m := fun hm =>
    K.simulates_self (a := fun _ => ()) (f := id) fun t =>
      (hm t).mono (fun _ hs => hs) (fun _ _ hs => ⟨rfl, hs⟩) fun _ _ hs => hs.1
  have hsimulates : kv.Simulates (fun s u => K.see s = K.see u) kv := by
    refine ⟨fun k => ?_, fun k v => ?_, fun k v => ?_⟩
    · exact K.simulates_self (a := (· k)) (f := id) fun t =>
        (K.get t k).mono (fun _ hs => hs) (fun _ _ hs => hs) fun _ _ hs => hs.1
    · exact K.simulates_self (a := fun _ => ()) (f := (update · k v)) fun t =>
        (K.put t k v).mono (fun _ hs => hs) (fun _ _ hs => ⟨rfl, hs⟩) fun _ _ hs => hs.1
    · refine K.simulates_self (a := fun t => (t k).isNone)
        (f := fun t => if (t k).isNone then update t k v else t) fun t =>
          (K.putIfAbsent t k v).mono (fun _ hs => hs) (fun made _ hs => ?_) fun _ _ hs => hs.1
      cases made with
      | true => simpa [hs.1] using hs.2
      | false => simpa [Option.isSome_iff_ne_none, hs.1] using hs.2
  exact Backend.answers_eq_of_simulates (hsimulates.answer (hidle K.start) (hidle K.stop))
    calls hsee

/-- A record that was initialized has its entry, whatever its list is. -/
theorem init_writes (r : Record) : Ensures (fun _ => True) (kv.init r)
    (fun _ s => K.see s (recordKey r.id) = some r.encode) fun _ _ => True := by
  intro s _
  have hclaim : Ensures (K.see · = K.see s) (kv.claim r)
      (fun _ u => K.see u (recordKey r.id) = some r.encode) fun _ _ => True :=
    (claim_ensures K r).mono (fun _ hs => hs) (fun _ _ hu => by rw [hu.2, update_self])
    fun _ _ _ => trivial
  refine hclaim.bind (fun _ => ?_) s rfl
  exact ((K.maintains_entry r.id r.encode).enlist r).mono (fun _ hs => hs) (fun _ _ hs => hs)
    fun _ _ _ => trivial

/-- Where the entry of a record is taken, an initialization says so and does nothing. -/
theorem init_refused {t : String → Option Bytes} {r : Record} (h : t (recordKey r.id) ≠ none) :
    Gives (K.see · = t) (kv.init r) (.error (.recordAlreadyPresent r.id)) := by
  have hclaim : Gives (K.see · = t) (kv.claim r) (.error (.recordAlreadyPresent r.id)) :=
    (claim_ensures K r).mono (fun _ hs => hs) (fun _ _ hs => absurd hs.1 h) fun e s hs =>
      ⟨by rw [(hs.1.resolve_left id).2], hs.2⟩
  exact hclaim.bind (g := fun _ => .ok ()) fun _ hok => nomatch hok

theorem outcome_fetch_eq_ok_iff {id : RecordId} {r : Record} {s : σ} :
    (kv.fetch id).outcome s = .ok r ↔
      ∃ raw, K.see s (recordKey id) = some raw ∧ Record.decode? raw = some r := by
  rw [(K.gives_fetch (K.see s) id).outcome rfl, recordAt_eq_ok_iff]

include K in
/-- **Over a key-value store records are kept as they were initialized.** -/
theorem writeOnce : kv.backend.WriteOnce where
  init r s hr :=
    K.outcome_fetch_eq_ok_iff.mpr ⟨_, (K.init_writes r).ok trivial hr, Record.decode?_encode r⟩
  keeps id r call := by
    intro s hs
    obtain ⟨raw, hraw, hdecoded⟩ := K.outcome_fetch_eq_ok_iff.mp hs
    exact ((K.maintains_entry id raw).answer call).mono (fun _ hs => hs)
      (fun _ _ hu => K.outcome_fetch_eq_ok_iff.mpr ⟨raw, hu, hdecoded⟩)
      (fun _ _ hu => K.outcome_fetch_eq_ok_iff.mpr ⟨raw, hu, hdecoded⟩) s hraw
  refused r q s hr hid := by
    obtain ⟨raw, hraw, -⟩ := K.outcome_fetch_eq_ok_iff.mp hr
    have hrefused := K.init_refused (t := K.see s) (r := q)
      (by rw [hid, hraw]; exact Option.some_ne_none raw)
    refine ⟨hid ▸ hrefused.outcome rfl, fun more => (K.answers_eq_of_see ?_ more).symm⟩
    exact hrefused.keeps.after rfl
  stored r key value id s := by
    have hstore : Ensures (K.see · = K.see s) (kv.store r key value)
        (fun _ u => recordAt (K.see u) id = recordAt (K.see s) id)
        fun _ u => recordAt (K.see u) id = recordAt (K.see s) id := by
      refine .bind ((K.put (K.see s) _ value).mono (fun _ hs => hs) (fun _ u hu => ?_)
        fun _ _ hu => hu.1.elim) fun _ => .pure fun _ hu => hu
      rw [hu, recordAt, update_of_ne _ value (recordKey_ne_valueKey id r.id key).symm, recordAt]
    show (kv.fetch id).outcome ((kv.store r key value).after s) = (kv.fetch id).outcome s
    rw [(K.gives_fetch _ id).outcome rfl, (K.gives_fetch _ id).outcome rfl]
    exact hstore.after rfl

end Contract

end KeyValue

/-- **Records are immutable and the first writer wins**, in memory and over every key-value store
that refuses nothing. -/
theorem backends_immutable : Memory.backend.Immutable ∧
    ∀ {σ : Type} {kv : KeyValue σ}, kv.Contract (fun _ => False) → kv.backend.Immutable :=
  ⟨Memory.writeOnce.immutable, fun K => K.writeOnce.immutable⟩

/-- A record under the id that the store itself keeps its lists under. -/
private def squatter : Record :=
  { Record.fresh Octets.zero 7 [] [] "a" with id := Record.mempool.id }

/-- Where its list is spoilt, a record is kept although its initialization
fails, and the id is taken. -/
example : KeyValue.ofTable.backend.answers [.store Record.mempool (KeyValue.indexKey "a" 7) [0],
      .init squatter, .fetch squatter.id, .init { squatter with version := "b" },
      .fetch squatter.id] .empty =
    [.ok (.record Record.mempool), .error .undecodable, .ok (.record squatter),
      .error (.recordAlreadyPresent squatter.id), .ok (.record squatter)] := by decide +kernel

end SealedStore
