import Mathlib.Algebra.Ring.Nat

/-! # Calls that take turns

Several calls work on one shared state, each step by step.  A run is any order of their steps; a
call that has to wait makes a step that changes nothing.

What a step of one call keeps, every run keeps (`run_induction`).  How many calls are at a certain
point is counted, and a step changes the count by what it does to the one call (`countP_set_add`):
so "one call holds the lock" is an equation between numbers.  Where some call can always come nearer
to its end, all calls can be brought to their ends (`exists_run_of_rank`).
-/
namespace SealedStore

/-- A shared state and the calls on it, each with what was asked and how far it has come. -/
structure Interleaving (σ ρ π : Type) where
  shared : σ
  calls : List (ρ × π)

namespace Interleaving

variable {σ ρ π : Type}

/-- Calls that are about to be made. -/
def begin (shared : σ) (requests : List ρ) (first : π) : Interleaving σ ρ π :=
  ⟨shared, requests.map (·, first)⟩

section Runs

variable (step : ρ → π → σ → π × σ)

/-- The state after a step of a call. -/
def next (s : Interleaving σ ρ π) (n : Nat) : Interleaving σ ρ π :=
  match s.calls[n]? with
  | some (request, p) =>
    let y := step request p s.shared
    ⟨y.2, s.calls.set n (request, y.1)⟩
  | none => s

/-- The state after steps of calls in any order. -/
def run (s : Interleaving σ ρ π) (moves : List Nat) : Interleaving σ ρ π :=
  moves.foldl (next step) s

end Runs

variable {step : ρ → π → σ → π × σ} {s : Interleaving σ ρ π}

theorem next_of_getElem? {n : Nat} {request : ρ} {p : π} (hn : s.calls[n]? = some (request, p)) :
    next step s n =
      ⟨(step request p s.shared).2, s.calls.set n (request, (step request p s.shared).1)⟩ := by
  rw [next, hn]

/-- What every step of a call keeps holds throughout every run. -/
theorem run_induction {I : Interleaving σ ρ π → Prop}
    (hstep : ∀ (s : Interleaving σ ρ π) (n : Nat) (request : ρ) (p : π), I s →
      s.calls[n]? = some (request, p) →
      I ⟨(step request p s.shared).2, s.calls.set n (request, (step request p s.shared).1)⟩)
    (hs : I s) (moves : List Nat) : I (run step s moves) := by
  induction moves generalizing s with
  | nil => exact hs
  | cons n moves ih =>
    refine ih ?_
    cases hn : s.calls[n]? with
    | none => rwa [next, hn]
    | some call => exact next_of_getElem? hn ▸ hstep s n call.1 call.2 hs hn

/-- Calls that are about to be made are all at the same point. -/
theorem eq_first {requests : List ρ} {first p : π} {n : Nat} {request : ρ}
    (hn : (requests.map (·, first))[n]? = some (request, p)) : p = first := by
  obtain ⟨_, -, hcall⟩ := List.mem_map.mp (List.mem_of_getElem? hn)
  exact (Prod.mk.inj hcall).2.symm

theorem countP_first {f : ρ × π → Bool} {first : π} (hf : ∀ request, f (request, first) = false)
    (requests : List ρ) : (requests.map (·, first)).countP f = 0 := by
  rw [List.countP_eq_zero]
  intro call hcall
  obtain ⟨request, -, rfl⟩ := List.mem_map.mp hcall
  exact Bool.eq_false_iff.mp (hf request)

/-- What was asked stays what it was. -/
theorem requests_run (s : Interleaving σ ρ π) (moves : List Nat) :
    (run step s moves).calls.map Prod.fst = s.calls.map Prod.fst := by
  refine run_induction (I := fun t => t.calls.map Prod.fst = s.calls.map Prod.fst) ?_ rfl moves
  intro t n request p ht hn
  rw [List.map_set, ← ht]
  refine List.ext_getElem? fun m => ?_
  by_cases hm : n = m
  · subst hm
    rw [List.getElem?_set_self', List.getElem?_map, hn]
    rfl
  · rw [List.getElem?_set_ne hm]

/-! ## One call among the others -/

section One

variable {α : Type} {l : List α} {n : Nat} {old new : α}

/-- After a step of one call, a call is that one or stands where it stood. -/
theorem getElem?_set_cases {m : Nat} {c : α} (h : (l.set n new)[m]? = some c) :
    m = n ∧ c = new ∨ m ≠ n ∧ l[m]? = some c := by
  by_cases hm : m = n
  · subst hm
    rw [List.getElem?_set_self'] at h
    obtain ⟨-, -, rfl⟩ := Option.map_eq_some_iff.mp h
    exact .inl ⟨rfl, rfl⟩
  · rw [List.getElem?_set_ne (Ne.symm hm)] at h
    exact .inr ⟨hm, h⟩

/-- A step changes the number of calls at a point by what it does to the one call. -/
theorem countP_set_add (hn : l[n]? = some old) (new : α) (f : α → Bool) :
    (l.set n new).countP f + (f old).toNat = l.countP f + (f new).toNat := by
  obtain ⟨hlt, hold⟩ := List.getElem?_eq_some_iff.mp hn
  rw [List.countP_set hlt, hold]
  cases hfo : f old with
  | false => cases f new <;> simp
  | true =>
    have hpos : 0 < l.countP f := List.countP_pos_iff.mpr ⟨old, List.mem_of_getElem? hn, hfo⟩
    cases f new <;> simp <;> omega

/-- A step changes a sum over the calls by what it does to the one call. -/
theorem sum_map_set_add (hn : l[n]? = some old) (new : α) (f : α → Nat) :
    ((l.set n new).map f).sum + f old = (l.map f).sum + f new := by
  induction l generalizing n with
  | nil => cases hn
  | cons c l ih =>
    cases n with
    | zero =>
      obtain rfl : c = old := Option.some.inj hn
      simp only [List.set_cons_zero, List.map_cons, List.sum_cons]
      omega
    | succ n =>
      have hrest := ih (n := n) hn
      simp only [List.set_cons_succ, List.map_cons, List.sum_cons]
      omega

/-- Where at most one call is at a point, two calls at that point are one. -/
theorem eq_of_countP_le_one {f : α → Bool} (h : l.countP f ≤ 1) {m n : Nat} {c d : α}
    (hc : l[m]? = some c) (hd : l[n]? = some d) (hfc : f c = true) (hfd : f d = true) : m = n := by
  induction l generalizing m n with
  | nil => cases hc
  | cons a l ih =>
    have hpos : ∀ {k : Nat} {b : α}, l[k]? = some b → f b = true → 0 < l.countP f := fun hb hfb =>
      List.countP_pos_iff.mpr ⟨_, List.mem_of_getElem? hb, hfb⟩
    rw [List.countP_cons] at h
    cases m with
    | zero =>
      cases n with
      | zero => rfl
      | succ n =>
        cases hc
        have := hpos hd hfd
        rw [if_pos hfc] at h
        omega
    | succ m =>
      cases n with
      | zero =>
        cases hd
        have := hpos hc hfc
        rw [if_pos hfd] at h
        omega
      | succ n => exact congrArg Nat.succ (ih (by omega) hc hd)

end One

/-! ## Runs to the end -/

/-- Whether all calls are done. -/
def All (done : π → Prop) (s : Interleaving σ ρ π) : Prop := ∀ call ∈ s.calls, done call.2

/-- **All calls can be brought to their ends** if, as long as one is not done, the step of some call
brings the calls nearer to it. -/
theorem exists_run_of_rank {I : Interleaving σ ρ π → Prop} {done : π → Prop}
    (rank : Interleaving σ ρ π → Nat)
    (hnearer : ∀ s, I s → ¬ s.All done → ∃ n, I (next step s n) ∧ rank (next step s n) < rank s)
    (hs : I s) :
    ∃ moves, (run step s moves).All done := by
  induction hrank : rank s using Nat.strongRecOn generalizing s with
  | ind k ih =>
    by_cases hdone : s.All done
    · exact ⟨[], hdone⟩
    · obtain ⟨n, hn, hlt⟩ := hnearer s hs hdone
      obtain ⟨moves, hmoves⟩ := ih _ (hrank ▸ hlt) hn rfl
      exact ⟨n :: moves, hmoves⟩

end Interleaving
end SealedStore
