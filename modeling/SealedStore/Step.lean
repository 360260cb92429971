import SealedStore.Error
/-!
# Steps on a state

A `Step σ α` is a computation on a state that may fail.  What it changed before it failed stays
changed: a store that refuses the second of two writes has kept the first.
-/
namespace SealedStore

/-- A computation on a state of type `σ` that gives an `α` or fails; either way
there is a new state. -/
def Step (σ α : Type) : Type := σ → Except StoreError α × σ

namespace Step

variable {σ ρ α β : Type}

/-- The outcome and the new state. -/
def run (m : Step σ α) (s : σ) : Except StoreError α × σ := m s

/-- The outcome alone. -/
def outcome (m : Step σ α) (s : σ) : Except StoreError α := (m s).1

/-- The new state alone. -/
def after (m : Step σ α) (s : σ) : σ := (m s).2

instance : Monad (Step σ) where
  pure a := fun s => (.ok a, s)
  bind m f := fun s =>
    match m s with
    | (.ok a, t) => f a t
    | (.error e, t) => (.error e, t)

/-- Fails and changes nothing. -/
def fail (e : StoreError) : Step σ α := fun s => (.error e, s)

/-- The outcome of a pure check. -/
def ofExcept (r : Except StoreError α) : Step σ α := fun s => (r, s)

instance : MonadLift (Except StoreError) (Step σ) := ⟨ofExcept⟩

/-- The state. -/
def get : Step σ σ := fun s => (.ok s, s)

/-- Changes the state. -/
def modify (f : σ → σ) : Step σ Unit := fun s => (.ok (), f s)

/-- Reads something off the state. -/
def gets (f : σ → α) : Step σ α := fun s => (.ok (f s), s)

/-- Never fails: gives the outcome as a value. -/
def attempt (m : Step σ α) : Step σ (Except StoreError α) := fun s =>
  match m s with
  | (r, t) => (.ok r, t)

/-- Never fails: the error is dropped. -/
def ignore (m : Step σ α) : Step σ Unit := fun s => (.ok (), (m s).2)

/-- A step on a part of the state. -/
def within (part : ρ → σ) (replace : σ → ρ → ρ) (m : Step σ α) : Step ρ α := fun r =>
  match m (part r) with
  | (a, s) => (a, replace s r)

/-- One step for each item, in order, up to the first that fails. -/
def forEach (xs : List α) (f : α → Step σ Unit) : Step σ Unit :=
  match xs with
  | [] => pure ()
  | x :: r => do
    f x
    forEach r f

/-! ## How each step acts -/

@[simp] theorem pure_apply (a : α) (s : σ) : (pure a : Step σ α) s = (.ok a, s) := rfl

theorem bind_apply (m : Step σ α) (f : α → Step σ β) (s : σ) :
    (m >>= f) s = match m s with
      | (.ok a, t) => f a t
      | (.error e, t) => (.error e, t) := rfl

theorem bind_of_ok {m : Step σ α} {f : α → Step σ β} {s t : σ} {a : α} (h : m s = (.ok a, t)) :
    (m >>= f) s = f a t := by rw [bind_apply, h]

theorem bind_of_error {m : Step σ α} {f : α → Step σ β} {s t : σ} {e : StoreError}
    (h : m s = (.error e, t)) : (m >>= f) s = (.error e, t) := by rw [bind_apply, h]

@[simp] theorem fail_apply (e : StoreError) (s : σ) : (fail e : Step σ α) s = (.error e, s) := rfl

@[simp] theorem get_apply (s : σ) : (get : Step σ σ) s = (.ok s, s) := rfl

@[simp] theorem modify_apply (f : σ → σ) (s : σ) : modify f s = (.ok (), f s) := rfl

@[simp] theorem gets_apply (f : σ → α) (s : σ) : gets f s = (.ok (f s), s) := rfl

@[simp] theorem ofExcept_apply (r : Except StoreError α) (s : σ) : ofExcept r s = (r, s) := rfl

@[simp] theorem attempt_apply (m : Step σ α) (s : σ) : attempt m s = (.ok (m s).1, (m s).2) := rfl

@[simp] theorem ignore_apply (m : Step σ α) (s : σ) : ignore m s = (.ok (), (m s).2) := rfl

@[simp] theorem within_apply (part : ρ → σ) (replace : σ → ρ → ρ) (m : Step σ α) (r : ρ) :
    within part replace m r = ((m (part r)).1, replace (m (part r)).2 r) := rfl

end Step
end SealedStore
