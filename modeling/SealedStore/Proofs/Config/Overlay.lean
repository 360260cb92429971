import Mathlib.Data.List.Nodup
import SealedStore.Config.Variable

/-! # Variables laid over a configuration

An overlay reads its variables one after the other, yet what it comes to is told for each variable
alone: where the environment has a value its field takes that value, read, and elsewhere the field
stays what it was (`Variable.Settles`).  An overlay succeeds with a configuration if and only if
that settles every variable (`overlay_ok_iff`), since no two variables have one field or one name.

So overlays compose as their environments do, and a variable moves its own field
alone (`overlays_compose`).
-/
namespace SealedStore.Config

variable {env : Environment} {c d : Config}

namespace Variable

theorem mem_all (v : Variable) : v ∈ all := by cases v <;> decide

theorem nodup_all : all.Nodup := by decide

theorem name_injective : Function.Injective name := fun v w h =>
  List.inj_on_of_nodup_map (l := all) (by decide) v.mem_all w.mem_all h

/-- Between two configurations the field of a variable has taken the value of an environment, or was
left alone where there is none. -/
def Settles (env : Environment) (c d : Config) (v : Variable) : Prop :=
  match env v.name with
  | none => v.get d = v.get c
  | some s => v.read s = .ok (v.get d)

theorem settles_of_none {v : Variable} (h : env v.name = none) :
    v.Settles env c d ↔ v.get d = v.get c := by
  rw [Settles, h]

theorem settles_of_some {v : Variable} {s : String} (h : env v.name = some s) :
    v.Settles env c d ↔ v.read s = .ok (v.get d) := by
  rw [Settles, h]

/-- What settles a variable depends on its own field alone. -/
theorem settles_congr {v : Variable} {c' : Config} (h : v.get c' = v.get c) :
    v.Settles env c' d ↔ v.Settles env c d := by
  unfold Settles
  rw [h]

end Variable

/-- **An overlay of some variables** settles each of these and leaves all others alone. -/
theorem overlayWith_ok_iff {vs : List Variable} (hvs : vs.Nodup) :
    overlayWith env vs c = (.ok (), d) ↔
      (∀ v ∈ vs, v.Settles env c d) ∧ ∀ v, v ∉ vs → v.get d = v.get c := by
  induction vs generalizing c with
  | nil =>
    constructor
    · intro h
      obtain ⟨-, rfl⟩ := Prod.mk.inj h
      exact ⟨List.forall_mem_nil _, fun _ _ => rfl⟩
    · rintro ⟨-, h⟩
      rw [Variable.ext_get fun v => h v List.not_mem_nil]
      rfl
  | cons v r ih =>
    obtain ⟨hv, hr⟩ := List.nodup_cons.mp hvs
    -- a configuration that differs from `c` in the field of `v` alone
    have hrest : ∀ {c' : Config}, (∀ w, w ≠ v → w.get c' = w.get c) →
        ((∀ w ∈ r, w.Settles env c' d) ∧ (∀ w, w ∉ r → w.get d = w.get c') ↔
          v.get d = v.get c' ∧ (∀ w ∈ r, w.Settles env c d) ∧
            ∀ w, w ∉ v :: r → w.get d = w.get c) := by
      intro c' hc'
      have hne : ∀ w ∈ r, w ≠ v := fun w hw hwv => hv (hwv ▸ hw)
      constructor
      · rintro ⟨hsettles, hothers⟩
        refine ⟨hothers v hv, fun w hw => ?_, fun w hw => ?_⟩
        · exact (Variable.settles_congr (hc' w (hne w hw))).mp (hsettles w hw)
        · rw [List.mem_cons, not_or] at hw
          rw [hothers w hw.2, hc' w hw.1]
      · rintro ⟨hvd, hsettles, hothers⟩
        refine ⟨fun w hw => ?_, fun w hw => ?_⟩
        · exact (Variable.settles_congr (hc' w (hne w hw))).mpr (hsettles w hw)
        · by_cases hwv : w = v
          · rw [hwv, hvd]
          · rw [hothers w (by rw [List.mem_cons, not_or]; exact ⟨hwv, hw⟩), hc' w hwv]
    rw [List.forall_mem_cons, and_assoc]
    cases henv : env v.name with
    | none =>
      rw [overlayWith, henv, Variable.settles_of_none henv]
      exact (ih hr).trans (hrest fun _ _ => rfl)
    | some s =>
      rw [overlayWith, henv, Variable.settles_of_some henv]
      dsimp only
      cases hread : v.read s with
      | error e => simp
      | ok x =>
        show overlayWith env r (v.set x c) = _ ↔ Except.ok x = .ok (v.get d) ∧ _
        rw [ih hr, hrest fun w hw => Variable.get_set_of_ne hw x c, Variable.get_set,
          Except.ok.injEq, eq_comm]

/-- **An overlay succeeds just if every variable is settled.** -/
theorem overlay_ok_iff : c.overlay env = (.ok (), d) ↔ ∀ v : Variable, v.Settles env c d := by
  rw [overlay, overlayWith_ok_iff Variable.nodup_all]
  constructor
  · intro h v
    exact h.1 v v.mem_all
  · intro h
    exact ⟨fun v _ => h v, fun v hv => absurd v.mem_all hv⟩

/-- A variable that was settled once stays settled. -/
theorem Variable.Settles.again {v : Variable} (h : v.Settles env c d) : v.Settles env d d := by
  unfold Settles at h ⊢
  split
  · rfl
  · next s hs =>
    rw [hs] at h
    exact h

/-- An environment without variables changes nothing. -/
theorem overlay_nothing (c : Config) : c.overlay (fun _ => none) = (.ok (), c) :=
  overlay_ok_iff.mpr fun _ => rfl

/-- What an overlay gives stands under the same overlay. -/
theorem overlay_again (h : c.overlay env = (.ok (), d)) : d.overlay env = (.ok (), d) :=
  overlay_ok_iff.mpr fun v => (overlay_ok_iff.mp h v).again

/-- The values of an environment where it has one, and those of another elsewhere. -/
def Environment.under (first second : Environment) : Environment :=
  fun name => (second name).or (first name)

/-- Settled by one environment and then by another is settled by both at once. -/
theorem Variable.Settles.under {first second : Environment} {f : Config} {v : Variable}
    (hfirst : v.Settles first c d) (hsecond : v.Settles second d f) :
    v.Settles (first.under second) c f := by
  unfold Settles at hfirst hsecond ⊢
  cases hs : second v.name with
  | some s =>
    rw [hs] at hsecond
    rw [Environment.under, hs]
    exact hsecond
  | none =>
    rw [hs] at hsecond
    rw [Environment.under, hs, Option.none_or, hsecond]
    exact hfirst

/-- Under environments that agree on a variable its field comes out the same. -/
theorem Variable.Settles.get_eq {first second : Environment} {f : Config} {v : Variable}
    (hfirst : v.Settles first c d) (hsecond : v.Settles second c f)
    (h : first v.name = second v.name) :
    v.get f = v.get d := by
  unfold Settles at hfirst hsecond
  rw [h] at hfirst
  cases hs : second v.name with
  | none =>
    rw [hs] at hfirst hsecond
    rw [hsecond, hfirst]
  | some s =>
    rw [hs] at hfirst hsecond
    exact Except.ok.inj (hsecond.symm.trans hfirst)

/-- **Overlays compose, and each variable moves its own field.**  One overlay after another comes to
one overlay with the values of the second where it has any, so the same overlay twice comes to once;
and two overlays whose environments differ in one variable come to configurations that differ at
most in the field of this variable, and not at all if it is none of the configuration's. -/
theorem overlays_compose (c : Config) :
    (∀ (first second : Environment) (d f : Config), c.overlay first = (.ok (), d) →
        d.overlay second = (.ok (), f) →
        c.overlay (first.under second) = (.ok (), f)) ∧
      (∀ (env : Environment) (d : Config), c.overlay env = (.ok (), d) →
        d.overlay env = (.ok (), d)) ∧
      ∀ (name : String) (first second : Environment) (d f : Config),
        (∀ other, other ≠ name → first other = second other) → c.overlay first = (.ok (), d) →
        c.overlay second = (.ok (), f) → f = d ∨
        ∃ v : Variable, v.name = name ∧ f = v.set (v.get f) d := by
  refine ⟨fun first second d f hd hf => ?_, fun env d hd => overlay_again hd, ?_⟩
  · exact overlay_ok_iff.mpr fun v => (overlay_ok_iff.mp hd v).under (overlay_ok_iff.mp hf v)
  · intro name first second d f hsame hd hf
    have hget : ∀ w : Variable, w.name ≠ name → w.get f = w.get d := fun w hw =>
      (overlay_ok_iff.mp hd w).get_eq (overlay_ok_iff.mp hf w) (hsame w.name hw)
    by_cases hname : ∃ v : Variable, v.name = name
    · obtain ⟨v, rfl⟩ := hname
      refine .inr ⟨v, rfl, Variable.ext_get fun w => ?_⟩
      by_cases hw : w = v
      · subst hw
        rw [Variable.get_set]
      · rw [Variable.get_set_of_ne hw]
        exact hget w fun h => hw (Variable.name_injective h)
    · exact .inl (Variable.ext_get fun w => hget w fun h => hname ⟨w, h⟩)

/-- The same expiry twice, and the path of the database changed once. -/
theorem overlays_compose_moved_database :
    let setting (path : String) : Environment := fun name =>
      if name = "CONFSTORE_REDIS_VALUE_TTL" then some "2h"
      else if name = "CONFSTORE_SLED_PATH" then some path else none
    let before := { default with
      server := { default.server with valueTtl := .ofSeconds 7200 }
      databasePath := "/old" }
    let behind := { before with databasePath := "/new" }
    default.overlay (setting "/old") = (.ok (), before) ∧
      before.overlay (setting "/new") = (.ok (), behind) ∧
      default.overlay ((setting "/old").under (setting "/new")) = (.ok (), behind) ∧
      before.overlay (setting "/old") = (.ok (), before) ∧
        default.overlay (setting "/new") = (.ok (), behind) ∧
      (∀ other, other ≠ "CONFSTORE_SLED_PATH" → setting "/old" other = setting "/new" other) ∧
      (behind = before ∨
        ∃ v : Variable, v.name = "CONFSTORE_SLED_PATH" ∧ behind = v.set (v.get behind) before) := by
  intro setting before behind
  have hold : default.overlay (setting "/old") = (.ok (), before) := rfl
  have hnew : before.overlay (setting "/new") = (.ok (), behind) := rfl
  have honce : default.overlay (setting "/new") = (.ok (), behind) := rfl
  have hsame : ∀ other, other ≠ "CONFSTORE_SLED_PATH" →
      setting "/old" other = setting "/new" other := by
    intro other hother
    simp only [setting, if_neg hother]
  obtain ⟨hcompose, hagain, hown⟩ := overlays_compose default
  exact ⟨hold, hnew, hcompose _ _ _ _ hold hnew, hagain _ _ hold, honce, hsame,
    hown _ _ _ _ _ hsame hold honce⟩

end SealedStore.Config
