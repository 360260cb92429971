import Mathlib.Data.List.Induction
import SealedStore.Proofs.Outbox
import SealedStore.Proofs.Record.Signed
import SealedStore.Proofs.Sample.Batch

/-! # The outbox as an ordered set

The outbox is spread over a list of digests and one value for each digest, which is blanked and
never removed.  Under any pushes and acknowledgements it is the ordered set of the messages that
were pushed and not acknowledged since (`Outbox.pending_after_calls`).  That set is first told call
by call (`Outbox.queue`), then by the places of the pushes in the sequence (`Outbox.mem_queue_iff`,
`Outbox.queue_ordered`); and the backend holds it in its two parts after every call
(`Contents.Mails`, `Outbox.calls_ensure`).

A handle of an outbox has no state of its own, so it does not matter through which
handle a call is made.
-/
namespace SealedStore

open Step

/-- Different signed bytes have different digests among these messages. -/
def Message.CollisionFree (among : Message → Prop) : Prop :=
  ∀ m n, among m → among n → m.digest = n.digest →
    m.signableBytes ++ m.signature = n.signableBytes ++ n.signature

/-- Equal digests are then those of equal messages. -/
theorem Message.CollisionFree.eq {among : Message → Prop} (h : CollisionFree among) {m n : Message}
    (hm : among m) (hn : among n) (hdigest : m.digest = n.digest) : m = n :=
  digested_eq_iff.mp (h m n hm hn hdigest)

namespace Outbox

/-! ## Calls -/

/-- A call that changes the outbox. -/
inductive Call where
  | push (m : Message)
  | acknowledge (digest : Octets 32)
deriving DecidableEq

variable {σ : Type}

/-- Makes a call. -/
def Call.perform (b : Backend σ) : Call → Step σ Unit
  | push m => do let _ ← Outbox.push b m
  | acknowledge digest => Outbox.acknowledge b digest

/-- The messages that wait after one call more: a push adds its message at the end unless it waits
already, an acknowledgement takes off the messages with its digest. -/
def Call.on (q : List Message) : Call → List Message
  | push m => if m ∈ q then q else q ++ [m]
  | acknowledge digest => q.filter (·.digest ≠ digest)

/-- The messages that wait after calls. -/
def queue (calls : List Call) : List Message := calls.foldl Call.on []

theorem queue_concat (calls : List Call) (call : Call) :
    queue (calls ++ [call]) = call.on (queue calls) :=
  List.foldl_concat ..

/-- Whether the call at a place pushes a message that no later call acknowledges. -/
def WaitsFrom (calls : List Call) (m : Message) (i : Nat) : Prop :=
  calls[i]? = some (.push m) ∧ ∀ j, i < j → calls[j]? ≠ some (.acknowledge m.digest)

/-! ## The queue and the places of pushes -/

section
variable {calls : List Call} {m n : Message} {i : Nat}

theorem WaitsFrom.lt (h : WaitsFrom calls m i) : i < calls.length :=
  (List.getElem?_eq_some_iff.mp h.1).1

/-- What stands at a place once a call was made at the end. -/
theorem getElem?_concat_iff {call other : Call} :
    (calls ++ [call])[i]? = some other ↔ calls[i]? = some other ∨ i = calls.length ∧
      call = other := by
  rw [List.getElem?_append]
  split
  · next hlt => simp [Nat.ne_of_lt hlt]
  · next hge =>
    have hnone : calls[i]? = none := List.getElem?_eq_none (Nat.le_of_not_lt hge)
    rw [hnone, List.getElem?_singleton]
    by_cases hi : i = calls.length
    · simp [hi]
    · have hpast : i - calls.length ≠ 0 := by omega
      simp [hi, hpast]

/-- A push waits from its own place, and what waited before waits on. -/
theorem waitsFrom_push_iff : WaitsFrom (calls ++ [.push n]) m i ↔
    WaitsFrom calls m i ∨ i = calls.length ∧ n = m := by
  have hlater : (∀ j, i < j → (calls ++ [.push n])[j]? ≠ some (.acknowledge m.digest)) ↔
      ∀ j, i < j → calls[j]? ≠ some (.acknowledge m.digest) := by simp [getElem?_concat_iff]
  rw [WaitsFrom, hlater, getElem?_concat_iff, or_and_right, Call.push.injEq]
  refine or_congr_right ⟨fun h => h.1, fun h => ⟨h, fun j hj => ?_⟩⟩
  rw [List.getElem?_eq_none (h.1 ▸ Nat.le_of_lt hj)]
  exact nofun

/-- An acknowledgement ends the waiting of the messages with its digest. -/
theorem waitsFrom_acknowledge_iff {d : Octets 32} : WaitsFrom (calls ++ [.acknowledge d]) m i ↔
    WaitsFrom calls m i ∧ m.digest ≠ d := by
  constructor
  · rintro ⟨hat, hlater⟩
    rcases getElem?_concat_iff.mp hat with hpushed | ⟨-, hcall⟩
    · refine ⟨⟨hpushed, fun j hj hold => hlater j hj (getElem?_concat_iff.mpr (.inl hold))⟩, ?_⟩
      rintro rfl
      have hlt : i < calls.length := (List.getElem?_eq_some_iff.mp hpushed).1
      exact hlater calls.length hlt (getElem?_concat_iff.mpr (.inr ⟨rfl, rfl⟩))
    · cases hcall
  · rintro ⟨⟨hat, hlater⟩, hne⟩
    refine ⟨getElem?_concat_iff.mpr (.inl hat), fun j hj hacknowledged => ?_⟩
    rcases getElem?_concat_iff.mp hacknowledged with hold | ⟨-, hcall⟩
    · exact hlater j hj hold
    · exact hne (Call.acknowledge.inj hcall).symm

end

/-- **The queue holds the messages of the pushes that no acknowledgement follows.** -/
theorem mem_queue_iff (calls : List Call) (m : Message) :
    m ∈ queue calls ↔ ∃ i, WaitsFrom calls m i := by
  induction calls using List.reverseRecOn with
  | nil => simp [queue, WaitsFrom]
  | append_singleton calls call ih =>
    rw [queue_concat]
    cases call with
    | push n =>
      simp only [waitsFrom_push_iff, exists_or, ← ih, exists_eq_left]
      rw [Call.on]
      split
      · next hn =>
        refine ⟨.inl, ?_⟩
        rintro (hm | rfl)
        · exact hm
        · exact hn
      · rw [List.mem_append, List.mem_singleton, eq_comm]
    | acknowledge d =>
      simp only [waitsFrom_acknowledge_iff, exists_and_right, ← ih]
      rw [Call.on, List.mem_filter, decide_eq_true_iff]

/-- Whether a message waits from before another one does. -/
def WaitsBefore (calls : List Call) (m n : Message) : Prop :=
  ∃ i, WaitsFrom calls m i ∧ ∀ j, WaitsFrom calls n j → i < j

/-- **The queue is in the order of the first pushes** that no acknowledgement follows. -/
theorem queue_ordered (calls : List Call) : (queue calls).Pairwise (WaitsBefore calls) := by
  induction calls using List.reverseRecOn with
  | nil => exact .nil
  | append_singleton calls call ih =>
    rw [queue_concat]
    cases call with
    | push m =>
      have hold : (queue calls).Pairwise (WaitsBefore (calls ++ [.push m])) := by
        refine ih.imp ?_
        rintro n k ⟨i, hn, hk⟩
        refine ⟨i, waitsFrom_push_iff.mpr (.inl hn), fun j hj => ?_⟩
        rcases waitsFrom_push_iff.mp hj with hj | ⟨rfl, -⟩
        · exact hk j hj
        · exact hn.lt
      rw [Call.on]
      split
      · exact hold
      · next hm =>
        refine List.pairwise_append.mpr ⟨hold, List.pairwise_singleton .., fun n hn k hk => ?_⟩
        cases List.mem_singleton.mp hk
        obtain ⟨i, hi⟩ := (mem_queue_iff calls n).mp hn
        refine ⟨i, waitsFrom_push_iff.mpr (.inl hi), fun j hj => ?_⟩
        -- the new message did not wait, so it waits from the new call alone
        rcases waitsFrom_push_iff.mp hj with hj | ⟨rfl, -⟩
        · exact absurd ((mem_queue_iff calls m).mpr ⟨j, hj⟩) hm
        · exact hi.lt
    | acknowledge d =>
      refine (ih.sublist List.filter_sublist).imp_of_mem ?_
      rintro n k hn - ⟨i, hi, hk⟩
      have hnd : n.digest ≠ d := of_decide_eq_true (List.mem_filter.mp hn).2
      exact ⟨i, waitsFrom_acknowledge_iff.mpr ⟨hi, hnd⟩, fun j hj =>
        hk j (waitsFrom_acknowledge_iff.mp hj).1⟩

theorem queue_nodup (calls : List Call) : (queue calls).Nodup := by
  refine (queue_ordered calls).imp ?_
  rintro m _ ⟨i, hi, hlater⟩ rfl
  exact Nat.lt_irrefl i (hlater i hi)

end Outbox

/-! ## The queue in a backend -/

namespace Contents

open Outbox

/-- **The outbox holds these messages**: their digests are listed in this order, and under
each is its message. -/
structure Mails (c : Contents) (q : List Message) : Prop where
  listed : c.digests? = some (q.map Message.digest)
  letters : ∀ m ∈ q, c.letter? m.digest = some m

variable {c : Contents} {q : List Message} (h : c.Mails q)
include h

theorem Mails.waiting?_eq : c.waiting? = some q := by
  rw [waiting?, h.listed, Option.map_some, List.filterMap_map]
  exact congrArg some ((List.filterMap_congr h.letters).trans List.filterMap_some)

/-- **A push adds its message at the end**, unless it waits already and stays in its place. -/
theorem Mails.push {among : Message → Prop} (hfree : Message.CollisionFree among)
    (hq : ∀ n ∈ q, among n) {m : Message} (hm : among m) :
    (c.pushed (q.map Message.digest) m).Mails ((Call.push m).on q) := by
  have hmem : m.digest ∈ q.map Message.digest ↔ m ∈ q := by
    refine ⟨fun hd => ?_, List.mem_map_of_mem⟩
    obtain ⟨n, hn, hdigest⟩ := List.mem_map.mp hd
    exact hfree.eq (hq n hn) hm hdigest ▸ hn
  have hletter : ∀ n ∈ (Call.push m).on q, n = m ∨ n ∈ q := by
    intro n hn
    rw [Call.on] at hn
    split at hn
    · exact .inr hn
    · exact (List.mem_append.mp hn).symm.imp_left List.mem_singleton.mp
  refine ⟨?_, fun n hn => ?_⟩
  · rw [digests?_pushed c h.listed, Call.on]
    by_cases hwaits : m ∈ q
    · rw [if_pos hwaits, if_pos (hmem.mpr hwaits)]
    · rw [if_neg hwaits, if_neg (mt hmem.mp hwaits), List.map_append]
      rfl
  · rw [letter?_pushed]
    by_cases hdigest : m.digest = n.digest
    · have hsame : m = n := by
        rcases hletter n hn with rfl | hn
        · rfl
        · exact hfree.eq hm (hq n hn) hdigest
      rw [if_pos hdigest, Message.decode?_encode, hsame]
    · rw [if_neg hdigest]
      rcases hletter n hn with rfl | hn
      · exact absurd rfl hdigest
      · exact h.letters n hn

/-- **An acknowledgement takes off what waits under its digest**, and the rest stays in order. -/
theorem Mails.acknowledge (d : Octets 32) :
    (c.acknowledged (q.map Message.digest) d).Mails ((Call.acknowledge d).on q) := by
  refine ⟨?_, fun n hn => ?_⟩
  · rw [digests?_acknowledged c h.listed, List.filter_map, Call.on, Function.comp_def]
  · obtain ⟨hn, hne⟩ := List.mem_filter.mp hn
    rw [letter?_acknowledged _ (Ne.symm (of_decide_eq_true hne))]
    exact h.letters n hn

end Contents

namespace Outbox

variable {σ : Type} {b : Backend σ} {C : b.Contract}

/-- A state of a backend whose outbox holds these messages. -/
def HoldsMail (C : b.Contract) (q : List Message) (s : σ) : Prop := C.Valid s ∧ (C.see s).Mails q

section
variable (hC : C.ServesOutbox) {among : Message → Prop} (hfree : Message.CollisionFree among)
include hC hfree

/-- **One call** succeeds and does to the outbox what it does to the queue. -/
theorem perform_ensures {q : List Message} (hq : ∀ n ∈ q, among n) {call : Call}
    (hcall : ∀ m, call = .push m → among m) :
    Ensures (HoldsMail C q) (call.perform b) (fun _ => HoldsMail C (call.on q))
      fun _ _ => False := by
  rintro s ⟨hvalid, hmails⟩
  cases call with
  | push m =>
    have hpush : Ensures (C.Holds (C.see s)) (push b m) (fun _ => HoldsMail C ((Call.push m).on q))
        fun _ _ => False := by
      refine (push_ensures hC (C.see s) m).mono (fun _ hs => hs) ?_ ?_
      · rintro _ t ⟨-, ds, hds, ht, hsee⟩
        cases hmails.listed.symm.trans hds
        exact ⟨ht, hsee ▸ hmails.push hfree hq (hcall m rfl)⟩
      · rintro _ _ ⟨hnone, -⟩
        cases hmails.listed.symm.trans hnone
    have hcall : Ensures (C.Holds (C.see s)) ((Call.push m).perform b)
        (fun _ => HoldsMail C ((Call.push m).on q))
        fun _ _ => False := Ensures.bind hpush fun _ => Ensures.pure (a := ()) fun _ ht => ht
    exact hcall s ⟨hvalid, rfl⟩
  | acknowledge d =>
    refine (acknowledge_ensures hC (C.see s) d).mono (fun _ hs => hs) ?_ ?_ s ⟨hvalid, rfl⟩
    · rintro _ t ⟨ds, hds, ht, hsee⟩
      cases hmails.listed.symm.trans hds
      exact ⟨ht, hsee ▸ hmails.acknowledge d⟩
    · rintro _ _ ⟨hnone, -⟩
      cases hmails.listed.symm.trans hnone

end

/-- **Any calls** succeed, and the outbox then holds their queue. -/
theorem calls_ensure (hC : C.ServesOutbox) (calls : List Call)
    (hfree : Message.CollisionFree fun m => .push m ∈ calls) :
    Ensures (HoldsMail C []) (forEach calls (Call.perform b)) (fun _ => HoldsMail C (queue calls))
      fun _ _ => False := by
  refine Ensures.forEach_prefix (P := fun before => HoldsMail C (queue before))
    fun before call rest hcalls => ?_
  have hwaits : ∀ n ∈ queue before, .push n ∈ calls := by
    intro n hn
    obtain ⟨i, hi, -⟩ := (mem_queue_iff before n).mp hn
    exact hcalls ▸ List.mem_append_left _ (List.mem_of_getElem? hi)
  rw [queue_concat]
  refine perform_ensures hC hfree hwaits ?_
  rintro m rfl
  exact hcalls ▸ List.mem_append_right _ List.mem_cons_self

/-- **The outbox is an ordered set.**  After any pushes and acknowledgements, all of which succeed,
on a backend whose outbox was empty: the messages that are read are those of the pushes that no
acknowledgement of their digest follows, each once and as it was pushed, in the order of the first
such pushes.  No two pushed messages collide. -/
theorem pending_after_calls (hC : C.ServesOutbox) {s : σ} (hs : C.Valid s)
    (hempty : (C.see s).digests? = some [])
    (calls : List Call) (hfree : Message.CollisionFree fun m => .push m ∈ calls) :
    (forEach calls (Call.perform b)).outcome s = .ok () ∧
      ∃ ms, (pending b).outcome ((forEach calls (Call.perform b)).after s) = .ok ms ∧ ms.Nodup ∧
        (∀ m, m ∈ ms ↔ ∃ i, WaitsFrom calls m i) ∧ ms.Pairwise (WaitsBefore calls) := by
  have hstart : HoldsMail C [] s := ⟨hs, hempty, List.forall_mem_nil _⟩
  obtain ⟨⟨⟩, hout, hvalid, hmails⟩ := (calls_ensure hC calls hfree).exists_ok hstart
  refine ⟨hout, queue calls, ?_, queue_nodup calls, mem_queue_iff calls, queue_ordered calls⟩
  rw [pending_outcome hC hvalid, hmails.waiting?_eq]

/-- The statement at two messages over each kind of backend, where the first is acknowledged and
pushed again, and the second is pushed twice. -/
theorem pending_after_calls_pushed_again :
    let first := Sample.message Octets.zero [Sample.write "k" [1]]
    let second := Sample.message Octets.zero [Sample.write "k" [2]]
    let calls := [.push first, .push second, .acknowledge first.digest, .push second, .push first]
    let Reads {σ : Type} (b : Backend σ) (s : σ) :=
      ∃ ms, (pending b).outcome ((forEach calls (Call.perform b)).after s) = .ok ms ∧ ms.Nodup ∧
        (∀ m, m ∈ ms ↔ m = first ∨ m = second) ∧ ms.Pairwise (WaitsBefore calls)
    Message.CollisionFree (fun m => .push m ∈ calls) ∧ Reads Memory.backend .empty ∧
      Reads KeyValue.ofTable.backend .empty := by
  intro first second calls Reads
  have hpushed : ∀ m, .push m ∈ calls → m = first ∨ m = second := by
    intro m hm
    simp only [calls, List.mem_cons, Call.push.injEq, List.not_mem_nil, or_false,
      reduceCtorEq, false_or] at hm
    tauto
  have hfree : Message.CollisionFree fun m => .push m ∈ calls := by
    intro m n hm hn hdigest
    rcases hpushed m hm with rfl | rfl <;> rcases hpushed n hn with rfl | rfl
    · rfl
    · exact absurd hdigest Sample.digest_ne
    · exact absurd hdigest.symm Sample.digest_ne
    · rfl
  have hwaits : ∀ m, (∃ i, WaitsFrom calls m i) ↔ m = first ∨ m = second := by
    intro m
    constructor
    · rintro ⟨i, hi, -⟩
      exact hpushed m (List.mem_of_getElem? hi)
    · have hlast : ∀ d j, 2 < j → calls[j]? ≠ some (.acknowledge d) := by
        rintro d (_ | _ | _ | _ | _ | j) hj
        · omega
        · omega
        · omega
        · exact nofun
        · exact nofun
        · exact nofun
      rintro (rfl | rfl)
      · exact ⟨4, rfl, fun j hj => hlast _ j (by omega)⟩
      · exact ⟨3, rfl, fun j hj => hlast _ j (by omega)⟩
  have hmemory := pending_after_calls (C := Memory.contract) Memory.contract_reliable.servesOutbox
    (s := Memory.empty) trivial rfl calls hfree
  have hpairs := pending_after_calls (C := KeyValue.tableContract.backend KeyValue.mute_false)
    KeyValue.tableContract.backend_reliable.servesOutbox (s := .empty) KeyValue.readable_empty
    (congrArg Contents.digests? KeyValue.contents_empty) calls hfree
  simp only [hwaits] at hmemory hpairs
  exact ⟨hfree, hmemory.2, hpairs.2⟩

end Outbox
end SealedStore
