import SealedStore.Proofs.Backend.KeyValue

/-! # Reliable backends answer alike

`Contents.backend` is the backend whose states are the contents themselves.  A reliable backend
answers every call as this one does on the contents that it holds, and holds afterwards what
this one does (`Reliable.follows_answer`); so two reliable backends that hold the same give the
same answers for good.  In particular no sequence of calls tells records over a key-value store
from records in memory (`KeyValue.answers_eq_memory`), save that values under the mempool
record are the store's own.
-/
namespace SealedStore

open Step

variable {σ α β : Type}

/-! ## Calls and answers -/

namespace Backend

/-- What a call gives. -/
inductive Answer where
  | done
  | record (record : Record)
  | value (value : Bytes)
  | records (records : List Record)
deriving DecidableEq

/-- A call as a step. -/
def answer (b : Backend σ) : Call → Step σ Answer
  | .start => do b.start; pure .done
  | .stop => do b.stop; pure .done
  | .init r => do b.init r; pure .done
  | .store r key value => do pure (.record (← b.store r key value))
  | .retrieve r key => do pure (.value (← b.retrieve r key))
  | .fetch id => do pure (.record (← b.fetch id))
  | .list block space => do pure (.records (← b.list block space))

/-- What calls give that are made one after the other, whether or not those before succeeded. -/
def answers (b : Backend σ) : List Call → σ → List (Except StoreError Answer)
  | [], _ => []
  | call :: calls, s => (b.answer call).outcome s :: b.answers calls ((b.answer call).after s)

/-- Whether a call neither writes nor reads a value under the mempool record. -/
def Call.OffMempool : Call → Prop
  | .store r _ _ => r.id ≠ Record.mempool.id
  | .retrieve r _ => r.id ≠ Record.mempool.id
  | _ => True

end Backend

/-- The backend whose states are contents. -/
def Contents.backend : Backend Contents where
  start := pure ()
  stop := pure ()
  init r := fun c =>
    if (c.records r.id).isSome then (.error (.recordAlreadyPresent r.id), c)
    else (.ok (), c.withRecord r)
  store r key value := fun c => (.ok r, c.withValue r.id key value)
  retrieve r key := fun c => (match c.values r.id key with
    | some v => .ok v
    | none => .error (Backend.Contract.missing c r.id key), c)
  fetch id := fun c => (match c.records id with
    | some r => .ok r
    | none => .error (.recordNotFound id), c)
  list block space := fun c => (.ok ((c.index space block).filterMap c.records), c)

/-! ## Steps that do to a state what others do to its contents -/

namespace Contents.View

variable {V : View σ}

/-- Whether one step gives what another gives on the contents that are seen, and
leaves what it leaves. -/
def Follows (V : View σ) (m : Step σ α) (n : Step Contents α) : Prop := Simulates V.Holds n m

theorem Follows.map {m : Step σ α} {n : Step Contents α} (h : V.Follows m n) (f : α → β) :
    V.Follows (do pure (f (← m))) (do pure (f (← n))) := Simulates.bind h fun _ => .pure _

/-- A step that only reads. -/
theorem follows_of_keeps {m : Step σ α} {f : Contents → Except StoreError α}
    (hkeeps : ∀ c, Keeps (V.Holds c) m) (hout : ∀ s, V.Valid s → m.outcome s = f (V.see s)) :
    V.Follows m fun c => (f c, c) := by
  rintro _ s ⟨hs, rfl⟩
  exact ⟨hout s hs, (hkeeps _).after ⟨hs, rfl⟩⟩

end Contents.View

namespace Backend.Contract

variable {b : Backend σ} {C : b.Contract} (hC : C.Reliable)
include hC

theorem Reliable.follows_start : C.Follows b.start Contents.backend.start :=
  Contents.View.follows_of_keeps (f := fun _ => .ok ()) C.start hC.start

theorem Reliable.follows_stop : C.Follows b.stop Contents.backend.stop :=
  Contents.View.follows_of_keeps (f := fun _ => .ok ()) C.stop hC.stop

theorem Reliable.follows_init (r : Record) : C.Follows (b.init r) (Contents.backend.init r) := by
  rintro _ s ⟨hs, rfl⟩
  have hinit := hC.init_ensures (C.see s) r
  have hout := hC.init r s hs
  show _ = (if _ then _ else _ : Except StoreError Unit × Contents).1 ∧
    C.Holds (if _ then _ else _ : Except StoreError Unit × Contents).2 _
  split at hout
  · next hr =>
    obtain ⟨-, -, hafter⟩ := hinit.error ⟨hs, rfl⟩ hout
    rw [if_pos hr]
    exact ⟨hout, hafter⟩
  · next hr =>
    obtain ⟨-, hafter⟩ := hinit.ok ⟨hs, rfl⟩ hout
    rw [if_neg hr]
    exact ⟨hout, hafter⟩

theorem Reliable.follows_store {r : Record} (hr : r.id ≠ Record.mempool.id)
    (key : String) (value : Bytes) :
    C.Follows (b.store r key value) (Contents.backend.store r key value) := by
  rintro _ s ⟨hs, rfl⟩
  have hout := hC.store r key value s hr hs
  exact ⟨hout, ((C.store _ r key value hr).ok ⟨hs, rfl⟩ hout).2⟩

theorem Reliable.follows_retrieve {r : Record} (hr : r.id ≠ Record.mempool.id) (key : String) :
    C.Follows (b.retrieve r key) (Contents.backend.retrieve r key) :=
  Contents.View.follows_of_keeps (fun c => (C.retrieve c r key).mono (fun _ hs => hs)
    (fun _ _ hs => hs.2) fun _ _ hs => hs.2) fun s hs => hC.retrieve r key s hr hs

theorem Reliable.follows_fetch (id : RecordId) :
    C.Follows (b.fetch id) (Contents.backend.fetch id) :=
  Contents.View.follows_of_keeps (fun c => (C.fetch c id).mono (fun _ hs => hs)
    (fun _ _ hs => hs.2) fun _ _ hs => hs) fun s hs => hC.fetch id s hs

theorem Reliable.follows_list (block : BitVec 64) (space : String) :
    C.Follows (b.list block space) (Contents.backend.list block space) :=
  Contents.View.follows_of_keeps (fun c => (C.list c block space).mono (fun _ hs => hs)
    (fun _ _ hs => hs.2) fun _ _ hs => hs) fun s hs => hC.list block space s hs

/-- **A reliable backend answers as its contents do.** -/
theorem Reliable.follows_answer {call : Call} (hcall : call.OffMempool) :
    C.Follows (b.answer call) (Contents.backend.answer call) := by
  cases call with
  | start => exact hC.follows_start.map fun _ => Answer.done
  | stop => exact hC.follows_stop.map fun _ => Answer.done
  | init r => exact (hC.follows_init r).map fun _ => Answer.done
  | store r key value => exact (hC.follows_store hcall key value).map Answer.record
  | retrieve r key => exact (hC.follows_retrieve hcall key).map Answer.value
  | fetch id => exact (hC.follows_fetch id).map Answer.record
  | list block space => exact (hC.follows_list block space).map Answer.records

/-- **All answers of a reliable backend** are told by what it holds at first. -/
theorem Reliable.answers_eq {calls : List Call} (hcalls : ∀ call ∈ calls, call.OffMempool)
    {c : Contents} {s : σ} (hs : C.Holds c s) :
    b.answers calls s = Contents.backend.answers calls c := by
  induction calls generalizing c s with
  | nil => rfl
  | cons call calls ih =>
    obtain ⟨hout, hafter⟩ := hC.follows_answer (hcalls call List.mem_cons_self) c s hs
    rw [answers, answers, hout,
      ih (fun call hcall => hcalls call (List.mem_cons_of_mem _ hcall)) hafter]

end Backend.Contract

/-! ## The two backends -/

namespace KeyValue

/-- **Records over a key-value store answer as records in memory do**, both empty at first:
every call of every sequence gives the same value, record or list in the same order, or fails
with the same error. -/
theorem answers_eq_memory {kv : KeyValue σ} (K : kv.Contract fun _ => False) {s : σ}
    (hs : K.see s = fun _ => none) {calls : List Backend.Call}
    (hcalls : ∀ call ∈ calls, call.OffMempool) :
    kv.backend.answers calls s = Memory.backend.answers calls .empty := by
  have hempty : (K.backend mute_false).Holds .empty s :=
    contents_empty ▸ K.holds_of_see readable_empty hs
  have hmemory : Memory.contract.Holds .empty .empty := ⟨trivial, rfl⟩
  rw [K.backend_reliable.answers_eq hcalls hempty,
    Memory.contract_reliable.answers_eq hcalls hmemory]

/-- A record with an id that is not its own. -/
private def ledger : Record :=
  { Record.fresh Octets.zero 7 [] [] "a-bn-1" with id := Octets.replicate 16 1 }

/-- The statement over a table, where a value is stored before its record is known and the
record is kept twice. -/
theorem answers_eq_memory_unknown_record :
    let calls : List Backend.Call := [.store ledger "k" [1], .retrieve ledger "l", .init ledger,
      .init ledger, .retrieve ledger "k", .retrieve ledger "l", .list 7 "a-bn-1",
      .fetch Record.mempool.id]
    tableContract.see .empty = (fun _ => none) ∧ (∀ call ∈ calls, call.OffMempool) ∧
      ofTable.backend.answers calls .empty = Memory.backend.answers calls .empty ∧
      Memory.backend.answers calls .empty =
        [.ok (.record ledger), .error (.recordNotFound ledger.id), .ok .done,
          .error (.recordAlreadyPresent ledger.id), .ok (.value [1]),
        .error (.keyNotFound ledger.id "l"), .ok (.records [ledger]),
        .error (.recordNotFound Record.mempool.id)] := by
  intro calls
  have hcalls : ∀ call ∈ calls, call.OffMempool := by
    have hid : ledger.id ≠ Record.mempool.id := by decide
    simp [calls, Backend.Call.OffMempool, hid]
  exact ⟨rfl, hcalls, answers_eq_memory tableContract rfl hcalls, by rfl⟩

end KeyValue
end SealedStore
