import SealedStore.Json.Fields
import SealedStore.Proofs.Json.RoundTrip

/-! # Which trees are written

The trees that the encodings build are exact: they are made of texts, plain numbers, lists and
records.  The two constructors of such trees, `record` and a mapped `array`, are exact and
admitted part by part.
-/
namespace SealedStore.Json

variable {α : Type}

@[simp] theorem isExact_null : null.isExact = true := rfl

@[simp] theorem isExact_text (s : String) : (text s).isExact = true := rfl

@[simp] theorem isExact_natural (n : Nat) : (natural n).isExact = true := rfl

@[simp] theorem isExact_ofBytes (b : Bytes) : (ofBytes b).isExact = true := rfl

@[simp] theorem isExact_ofOctets {n : Nat} (a : Octets n) : (ofOctets a).isExact = true := rfl

@[simp] theorem isExactItems_map (f : α → Json) (xs : List α) :
    isExactItems (xs.map f) = xs.all fun x => (f x).isExact := by
  induction xs with
  | nil => rfl
  | cons x xs ih => rw [List.map_cons, isExactItems, ih, List.all_cons]

@[simp] theorem isExact_array (f : α → Json) (xs : List α) :
    (array (xs.map f)).isExact = xs.all fun x => (f x).isExact := isExactItems_map f xs

@[simp] theorem isExact_record (fs : List (String × Json)) :
    (record fs).isExact = fs.all fun f => f.2.isExact := by
  show isExactMembers (fs.map fun f => (some f.1, f.2)) = _
  induction fs with
  | nil => rfl
  | cons f fs ih => simp [isExactMembers, ih]

/-- Two records are the same only if their fields are. -/
theorem record_injective {fs gs : List (String × Json)} (h : record fs = record gs) : fs = gs := by
  have hmap := (object.inj h)
  refine (List.map_inj_right ?_).mp hmap
  rintro ⟨k, i⟩ ⟨l, j⟩ he
  obtain ⟨hk, hi⟩ := Prod.mk.inj he
  exact Prod.ext (Option.some.inj hk) hi

/-- Two records followed by anything are the same bytes only if fields and followers are. -/
theorem render_record_append {fs gs : List (String × Json)} (hf : (record fs).isExact = true)
    (hg : (record gs).isExact = true) {x y : Bytes}
    (h : render (record fs) ++ x = render (record gs) ++ y) : fs = gs ∧ x = y := by
  obtain ⟨hm, hrest⟩ := render_object_append hf hg h
  exact ⟨record_injective (congrArg object hm), hrest⟩

theorem ofOctets_injective {n : Nat} {a b : Octets n} (h : ofOctets a = ofOctets b) : a = b := by
  have := congrArg (octets? n) h
  simpa using this

theorem array_ofOctets_injective {n : Nat} {as bs : List (Octets n)}
    (h : array (as.map ofOctets) = array (bs.map ofOctets)) : as = bs :=
  (List.map_inj_right fun _ _ => ofOctets_injective).mp (array.inj h)

theorem text_injective {s t : String} (h : text s = text t) : s = t :=
  Option.some.inj (string.inj h)

/-! ## Which trees are admitted -/

@[simp] theorem Shape.admits_text (shape : Shape) (s : String) : shape.admits (text s) = true := by
  simp [text, Shape.admits]

@[simp] theorem Shape.admits_natural (shape : Shape) (n : Nat) :
    shape.admits (natural n) = true := by
  simp [Shape.admits]

@[simp] theorem Shape.admits_ofBytes (shape : Shape) (b : Bytes) :
    shape.admits (ofBytes b) = true :=
  Shape.admits_text shape _

@[simp] theorem Shape.admits_ofOctets (shape : Shape) {n : Nat} (a : Octets n) :
    shape.admits (ofOctets a) = true := Shape.admits_text shape _

/-- A list is admitted if its items are. -/
theorem Shape.admits_list {shape : Shape} {f : α → Json} (xs : List α)
    (h : ∀ x ∈ xs, shape.admits (f x) = true) :
    (Shape.list shape).admits (array (xs.map f)) = true := by
  show (Shape.list shape).admitsItems (xs.map f) = true
  induction xs with
  | nil => rfl
  | cons x xs ih =>
    rw [List.map_cons, Shape.admitsItems]
    simp only [Shape.item, Shape.behindItem, Shape.isFull, h x List.mem_cons_self, Bool.not_false,
      Bool.or_true, Bool.true_and]
    exact ih fun y hy => h y (List.mem_cons_of_mem x hy)

/-- A structure is admitted if each of its fields is, under its own name. -/
theorem Shape.admits_record {shape : Shape} {fs : List (String × Json)}
    (h : ∀ f ∈ fs, (shape.member (some f.1)).admits f.2 = true) :
    shape.admits (record fs) = true := by
  show shape.admitsMembers (fs.map fun f => (some f.1, f.2)) = true
  induction fs with
  | nil => rfl
  | cons f fs ih =>
    rw [List.map_cons, Shape.admitsMembers, h f List.mem_cons_self]
    exact ih fun g hg => h g (List.mem_cons_of_mem f hg)

end SealedStore.Json
