import SealedStore.Proofs.Sample.Node

/-! # Messages that arrive again

Nothing numbers the writes of a message, so a message that arrives again is applied again, over
whatever arrived in between.  `redelivery` says what that changes: no record and no list, and a
value exactly where a message that arrived in between wrote last, and something else.
`redelivery_reverts` is such a case.
-/
namespace SealedStore

open StoreWrite

namespace Engine

variable {σ τ : Type} {e : Engine σ τ}

/-- The state after messages arrived, in order; those that are rejected change nothing. -/
def deliver (e : Engine σ τ) (s : State σ τ) (ms : List Message) : State σ τ :=
  ms.foldl (fun s m => (e.receive m).after s) s

variable {C : e.backend.Contract} (hC : C.Reliable)
include hC

/-- **What is held after messages is what was held and all that they brought**, in order. -/
theorem holds_deliver (ms : List Message) {c : Contents} {s : State σ τ}
    (hs : (view C.toView).Holds c s) :
    (view C.toView).Holds (c.ingestAll (ms.flatMap e.taken)) (e.deliver s ms) := by
  induction ms generalizing c s with
  | nil => exact hs
  | cons m ms ih =>
    rw [List.flatMap_cons, Contents.ingestAll_append]
    exact ih ((receive_of_reliable hC m c).after hs)

/-- **What it changes that an accepted message arrives again**, at any later point: no record and no
list.  A value becomes the last one that the message writes there, and so it changes exactly if a
message in between wrote there last, and another value. -/
theorem redelivery {s : State σ τ} (hs : C.Valid s.storage)
    {before between : List Message} {m : Message}
    (hm : e.judge m = .ok .accept) {t : State σ τ} (ht : t = e.deliver s (before ++ m :: between)) :
    let c := C.see t.storage
    let d := C.see ((e.receive m).after t).storage
    d.records = c.records ∧ d.index = c.index ∧ ∀ id key,
      d.values id key = (latest? m.writes id key).or (c.values id key) ∧
      (d.values id key ≠ c.values id key ↔ ∃ v u, latest? m.writes id key = some v ∧
        latest? (between.flatMap e.taken) id key = some u ∧ u ≠ v) := by
  intro c d
  have htaken := taken_of_accept hm
  -- the first arrival of `m` is kept apart from what arrived in between
  have hheld : (view C.toView).Holds
      (((C.see s.storage).ingestAll (before.flatMap e.taken ++ m.writes)).ingestAll
        (between.flatMap e.taken)) t := by
    have h := holds_deliver hC (before ++ m :: between) (s := s) ⟨hs, rfl⟩
    rw [← ht, List.flatMap_append, List.flatMap_cons, htaken, ← List.append_assoc,
      Contents.ingestAll_append] at h
    exact h
  have hc : c = ((C.see s.storage).ingestAll (before.flatMap e.taken ++ m.writes)).ingestAll
      (between.flatMap e.taken) := hheld.2
  -- the first arrival left every record of `m`, so the second adds none
  have hpresent : ∀ w ∈ m.writes, c.records w.record.id ≠ none := by
    intro w hw hnone
    rw [hc, ← Contents.ingestAll_append, Contents.records_ingestAll, Option.or_eq_none_iff,
      Option.map_eq_none_iff, List.find?_eq_none] at hnone
    exact hnone.2 w (List.mem_append_left _ (List.mem_append_right _ hw)) (decide_eq_true rfl)
  have hd : d = c.withWrites m.writes := by
    have h := (receive_of_reliable hC m _).after hheld
    rw [htaken, ← hc, Contents.ingestAll_of_present hpresent] at h
    exact h.2
  refine ⟨by rw [hd, Contents.records_withWrites],
    by rw [hd, Contents.index_withWrites], fun id key => ?_⟩
  have hvalue : d.values id key = (latest? m.writes id key).or (c.values id key) := by
    rw [hd, Contents.values_withWrites]
  refine ⟨hvalue, ?_⟩
  cases hv : latest? m.writes id key with
  | none => simp [hvalue, hv]
  | some v =>
    -- before the second arrival the value is the one written in between, or still the one
    -- that `m` left
    have hold : c.values id key = (latest? (between.flatMap e.taken) id key).or (some v) := by
      rw [hc, Contents.values_ingestAll, Contents.values_ingestAll, latest?_append,
        hv, Option.some_or, Option.some_or]
    rw [hvalue, hold, hv]
    cases latest? (between.flatMap e.taken) id key with
    | none => simp
    | some u => simp [eq_comm]

omit hC

section
variable (v : UInt8)

/-- A message that writes this value. -/
private def note : Message := Sample.message Octets.zero [Sample.write "k" [v]]

private theorem judge_note :
    (Sample.engine (Octets.replicate 16 1) false).judge (note v) = .ok .accept := by
  refine Sample.judge_message Topic.ofHub (Octets.replicate 16 1) false (by decide) fun w hw => ?_
  exact ⟨"k", [v], List.mem_singleton.mp hw⟩

end

/-- The statement at a message between whose arrivals another one wrote. -/
theorem redelivery_note :
    let e := Sample.engine (Octets.replicate 16 1) false
    let C := Sample.contract Topic.ofHub (Octets.replicate 16 1) false
    let t := e.deliver (.initial Memory.empty .empty) ([] ++ note 1 :: [note 2])
    let c := C.see t.storage
    let d := C.see ((e.receive (note 1)).after t).storage
    C.Reliable ∧ C.Valid Memory.empty ∧ e.judge (note 1) = .ok .accept ∧
      d.records = c.records ∧ d.index = c.index ∧ ∀ id key,
        d.values id key = (latest? (note 1).writes id key).or (c.values id key) ∧
        (d.values id key ≠ c.values id key ↔ ∃ v u, latest? (note 1).writes id key = some v ∧
          latest? ([note 2].flatMap e.taken) id key = some u ∧ u ≠ v) := by
  intro e C t c d
  refine ⟨Sample.contract_reliable .., trivial, judge_note 1, ?_⟩
  exact redelivery (Sample.contract_reliable ..) (s := .initial Memory.empty .empty) trivial
    (judge_note 1) rfl

/-- **A message that arrives again is not a no-op**: after two accepted messages wrote the same key,
the first one brings its value back. -/
theorem redelivery_reverts :
    let e := Sample.engine (Octets.replicate 16 1) false
    let C := Sample.contract Topic.ofHub (Octets.replicate 16 1) false
    let t := e.deliver (.initial Memory.empty .empty) [note 1, note 2]
    e.judge (note 1) = .ok .accept ∧ (C.see t.storage).values Sample.record.id "k" = some [2] ∧
      (C.see ((e.receive (note 1)).after t).storage).values Sample.record.id "k" = some [1] := by
  intro e C t
  have hC : C.Reliable := Sample.contract_reliable ..
  have htaken : ∀ v, e.taken (note v) = [Sample.write "k" [v]] :=
    fun v => taken_of_accept (judge_note v)
  have hempty : (view C.toView).Holds .empty
      (.initial Memory.empty .empty : State _ (Hub Message)) :=
    Sample.holds_initial Topic.ofHub (Octets.replicate 16 1) false _
  have hflat : [note 1, note 2].flatMap e.taken = [Sample.write "k" [1], Sample.write "k" [2]] := by
    simp [htaken]
  have ht : (view C.toView).Holds
      (Contents.empty.ingestAll [Sample.write "k" [1], Sample.write "k" [2]]) t := by
    rw [← hflat]
    exact holds_deliver hC [note 1, note 2] hempty
  clear_value t
  have hreceive := receive_of_reliable (e := e) hC (note 1)
    (Contents.empty.ingestAll [Sample.write "k" [1], Sample.write "k" [2]])
  rw [htaken] at hreceive
  have hagain := hreceive.after ht
  refine ⟨judge_note 1, ?_, ?_⟩
  · rw [show C.see t.storage = _ from ht.2, Contents.values_ingestAll, latest?_cons,
      latest?_singleton]
    simp [Sample.write]
  · rw [show C.see _ = _ from hagain.2, Contents.values_ingestAll]
    simp [latest?_singleton, Sample.write]

end Engine
end SealedStore
