/-!
# Tables

A finite map as a list of pairs in the order in which their keys were first written.  Writing under
a key that is present keeps its place.  Main statements: what a look-up returns after a write or a
removal (`find?_insert`, `find?_erase`).
-/
namespace SealedStore

/-- A finite map, its keys in the order of their first writing. -/
structure Table (κ ν : Type) where
  entries : List (κ × ν)
deriving DecidableEq, Repr

namespace Table

variable {κ ν : Type} [DecidableEq κ]

/-- The table without entries. -/
def empty : Table κ ν := ⟨[]⟩

instance : Inhabited (Table κ ν) := ⟨empty⟩

/-- The value under a key among these pairs. -/
def look (k : κ) : List (κ × ν) → Option ν
  | [] => none
  | (l, v) :: r => if l = k then some v else look k r

/-- The pairs with `v` under `k`, in the place of the old value or at the end. -/
def put (k : κ) (v : ν) : List (κ × ν) → List (κ × ν)
  | [] => [(k, v)]
  | (l, u) :: r => if l = k then (k, v) :: r else (l, u) :: put k v r

/-- The value under a key. -/
def find? (t : Table κ ν) (k : κ) : Option ν := look k t.entries

/-- Whether a key has a value. -/
def contains (t : Table κ ν) (k : κ) : Bool := (t.find? k).isSome

/-- The table with `v` under `k`. -/
def insert (t : Table κ ν) (k : κ) (v : ν) : Table κ ν := ⟨put k v t.entries⟩

/-- The table with nothing under `k`. -/
def erase (t : Table κ ν) (k : κ) : Table κ ν := ⟨t.entries.filter fun e => e.1 ≠ k⟩

/-- The values, in the order of their keys. -/
def values (t : Table κ ν) : List ν := t.entries.map (·.2)

/-! ## What a look-up returns -/

theorem look_put (k l : κ) (v : ν) (es : List (κ × ν)) :
    look l (put k v es) = if k = l then some v else look l es := by
  induction es with
  | nil => simp [put, look]
  | cons e r ih =>
    obtain ⟨m, u⟩ := e
    by_cases hm : m = k
    · subst hm
      by_cases hl : m = l <;> simp [put, look, hl]
    · by_cases hl : m = l
      · subst hl
        have : k ≠ m := fun h => hm h.symm
        simp [put, look, hm, this]
      · simp [put, look, hm, hl, ih]

theorem look_filter (k l : κ) (es : List (κ × ν)) :
    look l (es.filter fun e => e.1 ≠ k) = if k = l then none else look l es := by
  induction es with
  | nil => simp [look]
  | cons e r ih =>
    obtain ⟨m, u⟩ := e
    by_cases hm : m = k
    · subst hm
      by_cases hl : m = l <;> simp_all [look]
    · by_cases hl : m = l
      · subst hl
        have : k ≠ m := fun h => hm h.symm
        simp [look, hm, this]
      · simp_all [look]

@[simp] theorem find?_empty (k : κ) : (empty : Table κ ν).find? k = none := rfl

theorem find?_insert (t : Table κ ν) (k l : κ) (v : ν) :
    (t.insert k v).find? l = if k = l then some v else t.find? l := look_put k l v t.entries

@[simp] theorem find?_insert_self (t : Table κ ν) (k : κ) (v : ν) :
    (t.insert k v).find? k = some v := by simp [find?_insert]

theorem find?_insert_of_ne (t : Table κ ν) {k l : κ} (v : ν) (h : k ≠ l) :
    (t.insert k v).find? l = t.find? l := by simp [find?_insert, h]

theorem find?_erase (t : Table κ ν) (k l : κ) :
    (t.erase k).find? l = if k = l then none else t.find? l := look_filter k l t.entries

/-! ## What is listed -/

theorem mem_of_look {k : κ} {v : ν} {es : List (κ × ν)} (h : look k es = some v) : (k, v) ∈ es := by
  induction es with
  | nil => cases h
  | cons e r ih =>
    obtain ⟨l, u⟩ := e
    by_cases hl : l = k
    · subst hl
      simp [look] at h
      simp [h]
    · simp only [look, hl, if_false] at h
      exact List.mem_cons_of_mem _ (ih h)

theorem look_eq_none_iff {k : κ} {es : List (κ × ν)} : look k es = none ↔ ∀ e ∈ es, e.1 ≠ k := by
  induction es with
  | nil => simp [look]
  | cons e r ih =>
    obtain ⟨l, u⟩ := e
    by_cases hl : l = k <;> simp [look, hl, ih]

theorem put_of_absent {k : κ} (v : ν) {es : List (κ × ν)} (h : look k es = none) :
    put k v es = es ++ [(k, v)] := by
  induction es with
  | nil => rfl
  | cons e r ih =>
    obtain ⟨l, u⟩ := e
    by_cases hl : l = k
    · simp [look, hl] at h
    · simp only [look, hl, if_false] at h
      simp [put, hl, ih h]

theorem mem_values_of_find? {t : Table κ ν} {k : κ} {v : ν} (h : t.find? k = some v) :
    v ∈ t.values :=
  List.mem_map.mpr ⟨(k, v), mem_of_look h, rfl⟩

/-- A new key is listed last. -/
theorem values_insert_of_absent {t : Table κ ν} {k : κ} (v : ν) (h : t.find? k = none) :
    (t.insert k v).values = t.values ++ [v] := by
  simp [values, insert, put_of_absent v h]

end Table
end SealedStore
