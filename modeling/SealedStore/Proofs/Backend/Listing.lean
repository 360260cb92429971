import SealedStore.Proofs.Backend.Equivalence
import SealedStore.Proofs.Backend.Index
import SealedStore.Proofs.Backend.Storage

/-! # Which records are listed

A record over a key-value store is claimed by one write and listed by another.  If the second fails
the record stays, can be fetched, and is on no list; it stays so for good, since a second attempt
finds the record and stops there.  So the lists name just the records of which an initialization
succeeded (`Backend.Contract.lists_afterAll`), and a record that is fetched is listed, once, exactly
in that case (`KeyValue.listed_iff_completed`).  That every record that is fetched is listed does
not hold (`KeyValue.fetched_unlisted`).
-/
namespace SealedStore

open Step

variable {σ : Type}

/-! ## Sequences of calls -/

namespace Backend

/-- The state after calls that are made one after the other, whether or not
those before succeeded. -/
def afterAll (b : Backend σ) (calls : List Call) (s : σ) : σ :=
  calls.foldl (fun s call => (b.answer call).after s) s

/-- Whether one of the calls initialized a record with this id and succeeded. -/
def Completes (b : Backend σ) (calls : List Call) (s : σ) (id : RecordId) : Prop :=
  ∃ r, (Call.init r, Except.ok Answer.done) ∈ calls.zip (b.answers calls s) ∧ r.id = id

variable {b : Backend σ}

theorem completes_cons_iff {call : Call} {calls : List Call} {s : σ} {id : RecordId} :
    b.Completes (call :: calls) s id ↔
      b.Completes [call] s id ∨ b.Completes calls ((b.answer call).after s) id := by
  simp only [Completes, answers, List.zip_cons_cons, List.zip_nil_left,
    List.mem_cons, List.not_mem_nil, or_false, or_and_right, exists_or]

theorem completes_singleton_iff {call : Call} {s : σ} {id : RecordId} :
    b.Completes [call] s id ↔ ∃ r, call = .init r ∧ (b.answer call).outcome s = .ok .done ∧
      r.id = id := by
  simp only [Completes, answers, List.zip_cons_cons, List.zip_nil_left,
    List.mem_singleton, Prod.mk.injEq, and_assoc, eq_comm]

namespace Contract

variable {C : b.Contract} {done : RecordId → Prop} {c : Contents} {s : σ}

theorem answer_init_ensures (r : Record) : Ensures (C.Holds c) (b.answer (.init r))
    (fun a s => a = .done ∧ c.records r.id = none ∧ C.Holds (c.withRecord r) s)
    fun _ s => ∃ d, c.Tried r d ∧ C.Holds d s := by
  refine .bind ((C.init c r).mono (fun _ hs => hs) (fun _ _ hs => hs) fun _ s hs => ?_) fun _ =>
    .pure fun _ hs => ⟨rfl, hs⟩
  obtain ⟨d, htried, -, hs⟩ := hs
  exact ⟨d, htried, hs⟩

/-- A call that initializes nothing keeps the records and the lists. -/
theorem answer_ensures {call : Call} (hcall : call.OffMempool) (hinit : ∀ r, call ≠ .init r)
    (hc : c.Lists done) : Ensures (C.Holds c) (b.answer call)
      (fun _ s => ∃ d, d.Lists done ∧ C.Holds d s) fun _ s => ∃ d, d.Lists done ∧ C.Holds d s := by
  have hkept : ∀ s, C.Holds c s → ∃ d, d.Lists done ∧ C.Holds d s := fun s hs => ⟨c, hc, hs⟩
  cases call with
  | init r => exact absurd rfl (hinit r)
  | store r key value =>
    refine .bind ((C.store c r key value hcall).mono (fun _ hs => hs) (fun _ s hs => ?_)
      fun _ s => hkept s) fun _ => .pure fun _ hs => hs
    exact ⟨_, hc.withValue r.id key value, hs.2⟩
  | start =>
    exact .bind ((C.start c).mono (fun _ hs => hs) (fun _ s => hkept s) fun _ s => hkept s) fun _ =>
      .pure fun _ hs => hs
  | stop =>
    exact .bind ((C.stop c).mono (fun _ hs => hs) (fun _ s => hkept s) fun _ s => hkept s) fun _ =>
      .pure fun _ hs => hs
  | retrieve r key =>
    exact .bind ((C.retrieve c r key).mono (fun _ hs => hs) (fun _ s hs => hkept s hs.2)
      fun _ s hs => hkept s hs.2) fun _ => .pure fun _ hs => hs
  | fetch id =>
    exact .bind ((C.fetch c id).mono (fun _ hs => hs) (fun _ s hs => hkept s hs.2)
      fun _ s => hkept s) fun _ => .pure fun _ hs => hs
  | list block space =>
    exact .bind ((C.list c block space).mono (fun _ hs => hs) (fun _ s hs => hkept s hs.2)
      fun _ s => hkept s) fun _ => .pure fun _ hs => hs

/-- **A call lists the record that it initializes**, if it succeeds, and nothing otherwise. -/
theorem lists_answer {call : Call} (hcall : call.OffMempool) (hc : c.Lists done)
    (hs : C.Holds c s) :
    ∃ d, C.Holds d ((b.answer call).after s) ∧
      d.Lists fun id => b.Completes [call] s id ∨ done id := by
  simp only [completes_singleton_iff]
  by_cases hinit : ∃ r, call = .init r
  · obtain ⟨r, rfl⟩ := hinit
    cases hout : (b.answer (.init r)).outcome s with
    | ok a =>
      obtain ⟨rfl, habsent, hafter⟩ := (answer_init_ensures r).ok hs hout
      refine ⟨_, hafter, (hc.withRecord habsent).congr fun id => or_congr_left ?_⟩
      simp [eq_comm]
    | error e =>
      obtain ⟨d, htried, hafter⟩ := (answer_init_ensures r).error hs hout
      refine ⟨d, hafter, (hc.tried htried).congr fun id => ?_⟩
      simp
  · have hne := not_exists.mp hinit
    obtain ⟨d, hd, hafter⟩ := (answer_ensures hcall hne hc).after hs
    refine ⟨d, hafter, hd.congr fun id => ?_⟩
    simp [hne]

/-- **Lists name just the records of which an initialization succeeded.** -/
theorem lists_afterAll {calls : List Call} (hcalls : ∀ call ∈ calls, call.OffMempool)
    (hc : c.Lists done) (hs : C.Holds c s) :
    ∃ d, C.Holds d (b.afterAll calls s) ∧ d.Lists fun id => b.Completes calls s id ∨ done id := by
  induction calls generalizing c s done with
  | nil =>
    refine ⟨c, hs, hc.congr fun id => ⟨fun h => h.resolve_left ?_, .inr⟩⟩
    rintro ⟨r, hr, -⟩
    cases hr
  | cons call calls ih =>
    obtain ⟨d, hd, hlists⟩ := lists_answer (hcalls call List.mem_cons_self) hc hs
    obtain ⟨f, hf, hlists⟩ :=
      ih (fun call hcall => hcalls call (List.mem_cons_of_mem _ hcall)) hlists hd
    refine ⟨f, hf, hlists.congr fun id => ?_⟩
    rw [completes_cons_iff, or_assoc, or_left_comm]

end Contract

end Backend

/-! ## Records over a key-value store -/

namespace KeyValue

/-- A record for each number, with an id that is not derived, on one list. -/
private def entry (n : UInt8) : Record :=
  { Record.fresh Octets.zero 7 [] [] "a-bn-1" with id := Octets.replicate 16 n }

/-- **A record that is fetched is listed exactly if an initialization of it succeeded**, and then
once.  The store may refuse any of its own calls, as long as its errors do not say that a record is
present or that something is unknown; calls may follow on refused ones in any order. -/
theorem listed_iff_completed {kv : KeyValue σ} {F : StoreError → Prop}
    (K : kv.Contract F) (hF : Mute F)
    {s : σ} (hs : K.see s = fun _ => none) {calls : List Backend.Call}
    (hcalls : ∀ call ∈ calls, call.OffMempool) {id : RecordId} {r : Record} {rs : List Record}
    (hr : (kv.fetch id).outcome (kv.backend.afterAll calls s) = .ok r)
    (hrs : (kv.list r.decryptionCondition r.version).outcome
      ((kv.fetch id).after (kv.backend.afterAll calls s)) = .ok rs) :
    r.id = id ∧ rs.count r ≤ 1 ∧ (r ∈ rs ↔ kv.backend.Completes calls s id) := by
  have hempty : (K.backend hF).Holds .empty s := contents_empty ▸ K.holds_of_see readable_empty hs
  obtain ⟨c, hc, hlists⟩ := Backend.Contract.lists_afterAll hcalls Contents.lists_empty hempty
  obtain ⟨hheld, hfetched⟩ := ((K.backend hF).fetch c id).ok hc hr
  obtain ⟨rfl, -⟩ := ((K.backend hF).list c r.decryptionCondition r.version).ok hfetched hrs
  obtain rfl := hlists.bears id r hheld
  refine ⟨rfl, List.nodup_iff_count_le_one.mp (hlists.nodup_listing _ _) r, ?_⟩
  rw [show List.filterMap _ _ = c.listing r.decryptionCondition r.version from rfl,
    hlists.mem_listing_iff]
  simp [hheld]

/-- The statement at a store that refuses the second write of a list: the first record is listed,
the second is not, although its initialization was tried again. -/
theorem listed_iff_completed_second_refused :
    let s : Storage := { Storage.empty with faults := [⟨"put", "bid-data-39", 1, some 1⟩] }
    let calls : List Backend.Call := [.init (entry 1), .init (entry 2), .init (entry 2)]
    let kv := Storage.keyValue
    let t := kv.backend.afterAll calls s
    Storage.keyValueContract.see s = (fun _ => none) ∧ (∀ call ∈ calls, call.OffMempool) ∧
      kv.backend.answers calls s =
        [.ok .done, .error (.backend "injected put"), .error (.recordAlreadyPresent (entry 2).id)] ∧
      (∀ n ∈ [1, 2], (kv.fetch (entry n).id).outcome t = .ok (entry n) ∧
        (kv.list 7 "a-bn-1").outcome ((kv.fetch (entry n).id).after t) = .ok [entry 1]) ∧
      kv.backend.Completes calls s (entry 1).id ∧ ¬ kv.backend.Completes calls s (entry 2).id := by
  intro s calls kv t
  have hempty : Storage.keyValueContract.see s = fun _ => none := rfl
  have hcalls : ∀ call ∈ calls, call.OffMempool := by simp [calls, Backend.Call.OffMempool]
  have hread : ∀ n ∈ [1, 2], (kv.fetch (entry n).id).outcome t = .ok (entry n) ∧
      (kv.list 7 "a-bn-1").outcome ((kv.fetch (entry n).id).after t) = .ok [entry 1] := by
    decide +kernel
  have hlisted : ∀ n ∈ [1, 2], entry n ∈ [entry 1] ↔ kv.backend.Completes calls s (entry n).id :=
    fun n hn =>
      (listed_iff_completed Storage.keyValueContract Storage.mute_failure hempty hcalls
        (hread n hn).1 (hread n hn).2).2.2
  refine ⟨hempty, hcalls, by decide +kernel, hread, (hlisted 1 (by simp)).mp (by simp), fun h => ?_⟩
  exact absurd ((hlisted 2 (by simp)).mpr h) (by decide)

/-- **A record can be fetched and is on no list.**  Its list could not be written when it was
initialized, and a second initialization says that it is present. -/
theorem fetched_unlisted :
    let s : Storage := { Storage.empty with faults := [⟨"put", "bid-data-39", 0, some 1⟩] }
    Storage.keyValue.backend.answers
        [.init (entry 1), .init (entry 1), .fetch (entry 1).id, .list 7 "a-bn-1"] s =
      [.error (.backend "injected put"), .error (.recordAlreadyPresent (entry 1).id),
        .ok (.record (entry 1)), .ok (.records [])] := by
  decide +kernel

end KeyValue
end SealedStore
