import SealedStore.Step

/-! # What a step ensures

`Step.Ensures P m Q E` says that from a state with `P`, `m` gives a result with `Q` or fails with
`E`; both speak of the state that is left behind, since a step that fails keeps what it did before.
There is one rule for each way of making a step, so that a proof about a step follows its text.

`Step.Keeps P m` is the case of an invariant: `P` holds afterwards, whether or not `m` fails.
`Step.Gives P m x` is the case of a question: `m` keeps `P`, and its outcome is `x`.

`Step.Simulates T m n` says of two steps that they run alike on states that `T` relates.
-/
namespace SealedStore

/-! ## Pure checks -/

namespace Check

variable {α β : Type}

theorem bind_ok_iff {x : Except StoreError α} {f : α → Except StoreError β} {b : β} :
    (x >>= f) = .ok b ↔ ∃ a, x = .ok a ∧ f a = .ok b := by
  cases x with
  | error e => simp [bind, Except.bind]
  | ok a => simp [bind, Except.bind]

/-- What follows a check matters only where the check is passed. -/
theorem bind_congr {x : Except StoreError α} {f g : α → Except StoreError β}
    (h : ∀ a, x = .ok a → f a = g a) : (x >>= f) = (x >>= g) := by
  cases x with
  | error e => rfl
  | ok a => exact h a rfl

theorem seq_ok_iff {x : Except StoreError Unit} {f : Unit → Except StoreError β} {b : β} :
    (x >>= f) = .ok b ↔ x = .ok () ∧ f () = .ok b := by
  rw [bind_ok_iff]
  constructor
  · rintro ⟨⟨⟩, h⟩
    exact h
  · exact fun h => ⟨(), h⟩

theorem throw_ne_ok {e : StoreError} {a : α} : (throw e : Except StoreError α) ≠ .ok a := nofun

theorem pure_ok_iff {a b : α} : (pure a : Except StoreError α) = .ok b ↔ a = b :=
  Except.ok.injEq a b ▸ .rfl

end Check

namespace Step

variable {σ ρ α β : Type} {P R : σ → Prop} {Q : α → σ → Prop} {E : StoreError → σ → Prop}

/-- From a state with `P`, `m` gives a result with `Q` or fails with `E`. -/
def Ensures (P : σ → Prop) (m : Step σ α) (Q : α → σ → Prop) (E : StoreError → σ → Prop) : Prop :=
  ∀ s, P s → match m s with
    | (.ok a, t) => Q a t
    | (.error e, t) => E e t

/-- `P` holds after `m` if it held before. -/
def Keeps (P : σ → Prop) (m : Step σ α) : Prop := Ensures P m (fun _ => P) fun _ => P

/-- In every state with `P` the outcome of `m` is `x`, and `P` holds afterwards. -/
def Gives (P : σ → Prop) (m : Step σ α) (x : Except StoreError α) : Prop :=
  Ensures P m (fun a s => x = .ok a ∧ P s) fun e s => x = .error e ∧ P s

/-! ## Steps that are run -/

/-- A loop over steps that never fail runs to its end. -/
theorem forEach_apply {f : α → Step σ Unit} (hf : ∀ x s, (f x).outcome s = .ok ())
    (xs : List α) (s : σ) :
    forEach xs f s = (.ok (), xs.foldl (fun s x => (f x).after s) s) := by
  induction xs generalizing s with
  | nil => rfl
  | cons x xs ih =>
    have hx : f x s = (.ok (), (f x).after s) := Prod.ext (hf x s) rfl
    rw [forEach, bind_of_ok hx, ih, List.foldl_cons]

/-- What is made of a step's result changes nothing. -/
theorem map_apply (m : Step σ α) (f : α → β) (s : σ) :
    (m >>= fun a => Pure.pure (f a)) s = ((m.outcome s).map f, m.after s) := by
  rw [bind_apply, outcome, after]
  cases m s with
  | mk r t => cases r <;> rfl

theorem after_map (m : Step σ α) (f : α → β) (s : σ) :
    (m >>= fun a => Pure.pure (f a)).after s = m.after s := congrArg Prod.snd (map_apply m f s)

/-! ## Reading a statement off -/

theorem Ensures.ok {m : Step σ α} (h : Ensures P m Q E) {s : σ} (hs : P s) {a : α}
    (ha : m.outcome s = .ok a) : Q a (m.after s) := by
  have := h s hs
  rw [outcome] at ha
  rw [after]
  split at this
  · next hm =>
    rw [hm] at ha ⊢
    cases ha
    exact this
  · next hm =>
    rw [hm] at ha
    cases ha

theorem Ensures.error {m : Step σ α} (h : Ensures P m Q E) {s : σ} (hs : P s) {e : StoreError}
    (he : m.outcome s = .error e) : E e (m.after s) := by
  have := h s hs
  rw [outcome] at he
  rw [after]
  split at this
  · next hm =>
    rw [hm] at he
    cases he
  · next hm =>
    rw [hm] at he ⊢
    cases he
    exact this

/-- What holds of every result and of every failure holds of the state left behind. -/
theorem Ensures.after {m : Step σ α} (h : Ensures P m (fun _ => R) fun _ => R) {s : σ} (hs : P s) :
    R (m.after s) := by
  cases hm : m.outcome s with
  | ok a => exact h.ok hs hm
  | error e => exact h.error hs hm

/-- A step that never fails gives a result. -/
theorem Ensures.exists_ok {m : Step σ α} (h : Ensures P m Q fun _ _ => False) {s : σ} (hs : P s) :
    ∃ a, m.outcome s = .ok a ∧ Q a (m.after s) := by
  cases hm : m.outcome s with
  | ok a => exact ⟨a, rfl, h.ok hs hm⟩
  | error e => exact (h.error hs hm).elim

theorem Ensures.of_cases {m : Step σ α}
    (hok : ∀ s a, P s → m.outcome s = .ok a → Q a (m.after s))
    (herr : ∀ s e, P s → m.outcome s = .error e → E e (m.after s)) : Ensures P m Q E := by
  intro s hs
  cases hm : m s with
  | mk r t =>
    cases r with
    | ok a => simpa [Step.after, hm] using hok s a hs (by rw [outcome, hm])
    | error e => simpa [Step.after, hm] using herr s e hs (by rw [outcome, hm])

/-- Nothing is said of any step. -/
theorem Ensures.nothing (m : Step σ α) : Ensures P m (fun _ _ => True) fun _ _ => True :=
  .of_cases (fun _ _ _ _ => trivial) fun _ _ _ _ => trivial

/-! ## One rule for each way of making a step -/

theorem Ensures.mono {m : Step σ α} {P' : σ → Prop} {Q' : α → σ → Prop} {E' : StoreError → σ → Prop}
    (h : Ensures P m Q E) (hP : ∀ s, P' s → P s) (hQ : ∀ a s, Q a s → Q' a s)
    (hE : ∀ e s, E e s → E' e s) : Ensures P' m Q' E' :=
  .of_cases (fun _ a hs ha => hQ a _ (h.ok (hP _ hs) ha)) fun _ e hs he =>
    hE e _ (h.error (hP _ hs) he)

/-- What never fails may stand where steps may fail. -/
theorem Ensures.unfailing {m : Step σ α} (h : Ensures P m Q fun _ _ => False) : Ensures P m Q E :=
  h.mono (fun _ hs => hs) (fun _ _ hs => hs) fun _ _ hs => hs.elim

/-- Two statements about one step. -/
theorem Ensures.and {m : Step σ α} {P' : σ → Prop} {Q' : α → σ → Prop} {E' : StoreError → σ → Prop}
    (h : Ensures P m Q E) (h' : Ensures P' m Q' E') :
    Ensures (fun s => P s ∧ P' s) m (fun a s => Q a s ∧ Q' a s) fun e s => E e s ∧ E' e s :=
  .of_cases (fun _ _ hs ha => ⟨h.ok hs.1 ha, h'.ok hs.2 ha⟩) fun _ _ hs he =>
    ⟨h.error hs.1 he, h'.error hs.2 he⟩

/-- A fact that does not depend on the state may be used before the step is made. -/
theorem Ensures.of_fact {m : Step σ α} {p : Prop} (h : p → Ensures P m Q E) :
    Ensures (fun s => p ∧ P s) m Q E := by
  rintro s ⟨hp, hs⟩
  exact h hp s hs

theorem Ensures.of_exists {m : Step σ α} {ι : Type} {P : ι → σ → Prop}
    (h : ∀ i, Ensures (P i) m Q E) : Ensures (fun s => ∃ i, P i s) m Q E := by
  rintro s ⟨i, hs⟩
  exact h i s hs

theorem Ensures.bind {m : Step σ α} {f : α → Step σ β} {Q' : β → σ → Prop} (hm : Ensures P m Q E)
    (hf : ∀ a, Ensures (Q a) (f a) Q' E) : Ensures P (m >>= f) Q' E := by
  intro s hs
  have hmade := hm s hs
  rw [bind_apply]
  cases hstep : m s with
  | mk r t =>
    rw [hstep] at hmade
    cases r with
    | ok a => exact hf a t hmade
    | error e => exact hmade

/-- What a step that succeeds tells, it tells whatever comes behind. -/
theorem Ensures.of_first {m : Step σ α} {p : Prop} (h : Ensures P m (fun _ _ => p) fun _ _ => True)
    (f : α → Step σ β) : Ensures P (m >>= f) (fun _ _ => p) fun _ _ => True :=
  .bind h fun _ => .of_cases (fun _ _ hs _ => hs) fun _ _ _ _ => trivial

theorem Ensures.pure {a : α} (h : ∀ s, P s → Q a s) : Ensures P (pure a) Q E := h

theorem Ensures.fail {e : StoreError} (h : ∀ s, P s → E e s) : Ensures P (fail e) Q E := h

theorem Ensures.modify {f : σ → σ} {Q : Unit → σ → Prop} (h : ∀ s, P s → Q () (f s)) :
    Ensures P (modify f) Q E := h

theorem Ensures.gets {f : σ → α} (h : ∀ s, P s → Q (f s) s) : Ensures P (gets f) Q E := h

theorem Ensures.get_eq {s₀ : σ} {E : StoreError → σ → Prop} :
    Ensures (· = s₀) get (fun s s' => s = s₀ ∧ s' = s₀) E := by
  rintro _ rfl
  exact ⟨rfl, rfl⟩

/-- A check leaves the state as it is. -/
theorem Ensures.check_eq {r : Except StoreError α} {s₀ : σ} (h : ∀ e, E e s₀) :
    Ensures (· = s₀) (ofExcept r) (fun _ s => s = s₀) E := by
  rintro _ rfl
  cases r with
  | ok a => exact rfl
  | error e => exact h e

theorem Ensures.ofExcept {r : Except StoreError α} (hQ : ∀ a s, r = .ok a → P s → Q a s)
    (hE : ∀ e s, r = .error e → P s → E e s) : Ensures P (ofExcept r) Q E :=
  .of_cases (fun s a hs ha => hQ a s ha hs) fun s e hs he => hE e s he hs

theorem Ensures.attempt {m : Step σ α} {Q : Except StoreError α → σ → Prop}
    (h : Ensures P m (fun a => Q (.ok a)) fun e => Q (.error e)) : Ensures P m.attempt Q E := by
  intro s hs
  have := h s hs
  rw [attempt_apply]
  split at this
  · next hm => rw [hm]; exact this
  · next hm => rw [hm]; exact this

/-- A step that is tried, and what is done about its result and about its error. -/
theorem Ensures.bind_attempt {m : Step σ α} {f : Except StoreError α → Step σ β} {Q' : β → σ → Prop}
    {E' : StoreError → σ → Prop} (hm : Ensures P m Q E') (hok : ∀ a, Ensures (Q a) (f (.ok a)) Q' E)
    (herror : ∀ e, Ensures (E' e) (f (.error e)) Q' E) : Ensures P (m.attempt >>= f) Q' E := by
  intro s hs
  have hmade := hm s hs
  rw [bind_apply, attempt_apply]
  split at hmade
  · next a t hstep =>
    rw [hstep]
    exact hok a t hmade
  · next e t hstep =>
    rw [hstep]
    exact herror e t hmade

/-- A step that is tried, when what its result and its error say does not depend on the state. -/
theorem Ensures.attempt_cases {m : Step σ α} {A : α → Prop} {B : StoreError → Prop}
    (h : Ensures P m (fun a s => A a ∧ R s) fun e s => B e ∧ R s) :
    Ensures P m.attempt
      (fun made s => ((∀ a, made = .ok a → A a) ∧ ∀ e, made = .error e → B e) ∧ R s) E := by
  refine .attempt (h.mono (fun _ hs => hs) (fun a s hs => ⟨⟨?_, nofun⟩, hs.2⟩) fun e s hs =>
    ⟨⟨nofun, ?_⟩, hs.2⟩)
  · rintro _ ⟨rfl⟩
    exact hs.1
  · rintro _ ⟨rfl⟩
    exact hs.1

theorem Ensures.ignore {m : Step σ α} {Q : Unit → σ → Prop}
    (h : Ensures P m (fun _ => Q ()) fun _ => Q ()) : Ensures P m.ignore Q E := by
  intro s hs
  exact h.after hs

/-- A step on a part of the state. -/
theorem Ensures.within {part : ρ → σ} {replace : σ → ρ → ρ} {m : Step σ α} {P : ρ → Prop}
    {Q : α → ρ → Prop} {E : StoreError → ρ → Prop}
    (h : ∀ r, P r → Ensures (· = part r) m (fun a s => Q a (replace s r))
      fun e s => E e (replace s r)) :
    Ensures P (m.within part replace) Q E := by
  intro r hr
  have := h r hr (part r) rfl
  rw [within_apply]
  split at this
  · next hm => rw [hm]; exact this
  · next hm => rw [hm]; exact this

/-- A step on a part of a larger state, when what is put back in place of
the part is found there. -/
theorem Ensures.on_part {part : ρ → σ} {replace : σ → ρ → ρ} (hpart : ∀ s r, part (replace s r) = s)
    {m : Step σ α} {P : σ → Prop} {Q : α → σ → Prop} {E : StoreError → σ → Prop}
    (hm : Ensures P m Q E) :
    Ensures (fun r => P (part r)) (m.within part replace) (fun a r => Q a (part r))
      fun e r => E e (part r) := by
  refine .within ?_
  rintro r hr _ rfl
  simpa only [hpart] using hm _ hr

/-- What a step does, it does beside anything else as well. -/
theorem Ensures.beside {ω : Type} {m : Step σ α} (h : Ensures P m Q E) (x : ω) :
    Ensures (fun w : σ × ω => P w.1 ∧ w.2 = x) (m.within Prod.fst fun s w => (s, w.2))
      (fun a w => Q a w.1 ∧ w.2 = x) fun e w => E e w.1 ∧ w.2 = x := by
  refine .within ?_
  rintro w ⟨hw, rfl⟩ _ rfl
  exact (h.mono (fun _ hs => hs) (fun _ _ hs => ⟨hs, rfl⟩) fun _ _ hs => ⟨hs, rfl⟩) w.1 hw

theorem Ensures.forEach {xs : List α} {f : α → Step σ Unit}
    (h : ∀ x ∈ xs, Ensures P (f x) (fun _ => P) E) : Ensures P (forEach xs f) (fun _ => P) E := by
  induction xs with
  | nil => exact Ensures.pure fun _ hs => hs
  | cons x r ih =>
    refine Ensures.bind (h x List.mem_cons_self) fun _ => ?_
    exact ih fun y hy => h y (List.mem_cons_of_mem x hy)

/-- What holds after each item if it held of the items before it. -/
theorem Ensures.forEach_prefix {xs : List α} {f : α → Step σ Unit} {P : List α → σ → Prop}
    (h : ∀ before x rest, xs = before ++ x :: rest →
      Ensures (P before) (f x) (fun _ => P (before ++ [x])) E) :
    Ensures (P []) (Step.forEach xs f) (fun _ => P xs) E := by
  have hrest : ∀ rest before, xs = before ++ rest →
      Ensures (P before) (Step.forEach rest f) (fun _ => P xs) E := by
    intro rest
    induction rest with
    | nil =>
      rintro before rfl
      rw [List.append_nil]
      exact Ensures.pure fun _ hs => hs
    | cons x rest ih =>
      intro before hxs
      refine Ensures.bind (h before x rest hxs) fun _ => ih (before ++ [x]) ?_
      rw [hxs, List.append_assoc]
      rfl
  exact hrest xs [] rfl

theorem Keeps.of_after {m : Step σ α} (h : ∀ s, P s → P (m.after s)) : Keeps P m :=
  .of_cases (fun s _ hs _ => h s hs) fun s _ hs _ => h s hs

theorem Keeps.after {m : Step σ α} (h : Keeps P m) {s : σ} (hs : P s) : P (m.after s) :=
  Ensures.after h hs

/-! ## Questions -/

namespace Gives

variable {m : Step σ α} {x : Except StoreError α}

theorem outcome (h : Gives P m x) {s : σ} (hs : P s) : m.outcome s = x := by
  cases hm : m.outcome s with
  | ok a => exact (Ensures.ok h hs hm).1.symm
  | error e => exact (Ensures.error h hs hm).1.symm

theorem keeps (h : Gives P m x) : Keeps P m :=
  h.mono (fun _ hs => hs) (fun _ _ hs => hs.2) fun _ _ hs => hs.2

/-- A step that keeps `P` and always has this outcome. -/
theorem of_keeps (h : Keeps P m) (hout : ∀ s, P s → m.outcome s = x) : Gives P m x :=
  .of_cases (fun s _ hs ha => ⟨(hout s hs).symm.trans ha, h.ok hs ha⟩) fun s _ hs he =>
    ⟨(hout s hs).symm.trans he, h.error hs he⟩

theorem pure (a : α) : Gives P (pure a) (.ok a) := fun _ hs => ⟨rfl, hs⟩

theorem fail (e : StoreError) : Gives P (fail e : Step σ α) (.error e) := fun _ hs => ⟨rfl, hs⟩

theorem ofExcept (x : Except StoreError α) : Gives P (ofExcept x) x := of_keeps
  (.ofExcept (fun _ _ _ hs => hs) fun _ _ _ hs => hs) fun _ _ => rfl

theorem bind {f : α → Step σ β} {g : α → Except StoreError β} (h : Gives P m x)
    (hf : ∀ a, x = .ok a → Gives P (f a) (g a)) : Gives P (m >>= f) (x >>= g) := by
  cases x with
  | error e =>
    refine Ensures.bind (Q := fun _ _ => False)
      (h.mono (fun _ hs => hs) (fun _ _ hs => nomatch hs.1) fun err s hs => ⟨?_, hs.2⟩)
      fun _ _ hs => hs.elim
    rw [Except.error.inj hs.1]
    rfl
  | ok a =>
    refine Ensures.bind (Q := fun b s => b = a ∧ P s) (h.mono (fun _ hs => hs) (fun _ _ hs =>
      ⟨(Except.ok.inj hs.1).symm, hs.2⟩) fun _ _ hs => nomatch hs.1) fun b => .of_fact fun hb => ?_
    subst hb
    exact hf b rfl

end Gives

/-! ## Steps that run alike -/

/-- From related states one step gives what the other gives and leaves related states. -/
def Simulates (T : σ → ρ → Prop) (m : Step σ α) (n : Step ρ α) : Prop :=
  ∀ s r, T s r → n.outcome r = m.outcome s ∧ T (m.after s) (n.after r)

namespace Simulates

variable {T : σ → ρ → Prop} {m : Step σ α} {n : Step ρ α}

theorem pure (a : α) : Simulates T (pure a) (pure a) := fun _ _ h => ⟨rfl, h⟩

theorem fail (e : StoreError) : Simulates (α := α) T (fail e) (fail e) := fun _ _ h => ⟨rfl, h⟩

theorem ofExcept (x : Except StoreError α) : Simulates T (ofExcept x) (ofExcept x) :=
  fun _ _ h => ⟨rfl, h⟩

theorem bind {f : α → Step σ β} {g : α → Step ρ β} (h : Simulates T m n)
    (hf : ∀ a, Simulates T (f a) (g a)) : Simulates T (m >>= f) (n >>= g) := by
  intro s r hsr
  obtain ⟨hout, hafter⟩ := h s r hsr
  cases hm : m.outcome s with
  | ok a =>
    have hs : m s = (.ok a, m.after s) := Prod.ext hm rfl
    have hr : n r = (.ok a, n.after r) := Prod.ext (hout.trans hm) rfl
    simp only [outcome, after, bind_of_ok hs, bind_of_ok hr]
    exact hf a _ _ hafter
  | error e =>
    have hs : m s = (.error e, m.after s) := Prod.ext hm rfl
    have hr : n r = (.error e, n.after r) := Prod.ext (hout.trans hm) rfl
    simp only [outcome, after, bind_of_error hs, bind_of_error hr]
    exact ⟨trivial, hafter⟩

/-- A step runs beside anything else as it runs alone. -/
theorem beside {ω : Type} (m : Step σ α) :
    Simulates (fun s (w : σ × ω) => w.1 = s) m (m.within Prod.fst fun s w => (s, w.2)) := by
  rintro _ w rfl
  exact ⟨rfl, rfl⟩

/-- What comes behind a check may rely on it. -/
theorem behind_check {x : Except StoreError α} {f : α → Step σ β} {g : α → Step ρ β}
    (h : ∀ a, x = .ok a → Simulates T (f a) (g a)) :
    Simulates T (Step.ofExcept x >>= f) (Step.ofExcept x >>= g) := by
  cases x with
  | error e => exact .fail e
  | ok a => exact h a rfl

/-- What comes behind on one side alone, if it gives what was there. -/
theorem followed {f : α → Step ρ α} (h : Simulates T m n)
    (hf : ∀ a, Simulates T (Pure.pure a) (f a)) :
    Simulates T m (n >>= f) := by
  have hm : m >>= Pure.pure = m := by
    funext s
    rw [bind_apply]
    rcases m s with ⟨_ | _, _⟩ <;> rfl
  rw [← hm]
  exact h.bind hf

theorem attempt (h : Simulates T m n) : Simulates T m.attempt n.attempt := fun s r hsr =>
  ⟨congrArg Except.ok (h s r hsr).1, (h s r hsr).2⟩

theorem ignore (h : Simulates T m n) : Simulates T m.ignore n.ignore :=
  fun s r hsr => ⟨rfl, (h s r hsr).2⟩

theorem forEach {f : α → Step σ Unit} {g : α → Step ρ Unit} (h : ∀ x, Simulates T (f x) (g x))
    (xs : List α) : Simulates T (forEach xs f) (forEach xs g) := by
  induction xs with
  | nil => exact .pure ()
  | cons x xs ih => exact (h x).bind fun _ => ih

end Simulates

end Step
end SealedStore
