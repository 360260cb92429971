import SealedStore.Json.Parser
import SealedStore.Proofs.Json.Literal

/-! # Texts read back

What `render` writes of a tree, the reader reads as that tree, in front of anything unless it is a
number, which what follows must not continue (`readValue_render`).  Two conditions are needed: the
tree is exact, that is without decimals and without literals that denote no text, and no array
stands where a byte string of a fixed length is expected, since such an array is read item by item.
It follows that no two exact trees have the same text (`render_injective`), and that no text of a
structure starts another one's, so whatever is appended to the text of a structure can be told from
it (`render_object_append`).
-/
namespace SealedStore.Json

mutual

/-- Whether a tree holds neither a decimal nor a literal that denotes no text. -/
def isExact : Json → Bool
  | decimal _ => false
  | string s => s.isSome
  | array items => isExactItems items
  | object members => isExactMembers members
  | _ => true

/-- Whether every item is exact. -/
def isExactItems : List Json → Bool
  | [] => true
  | j :: r => j.isExact && isExactItems r

/-- Whether every key denotes a text and every value is exact. -/
def isExactMembers : List (Option String × Json) → Bool
  | [] => true
  | (k, j) :: r => k.isSome && j.isExact && isExactMembers r

end

mutual

/-- Whether no array of a tree stands at a place where a byte string of a fixed
length is expected. -/
def Shape.admits : Shape → Json → Bool
  | s, array items => s.admitsItems items
  | s, object members => s.admitsMembers members
  | _, _ => true

/-- Whether the items of an array are admitted one behind the other. -/
def Shape.admitsItems : Shape → List Json → Bool
  | _, [] => true
  | s, j :: r =>
    s.item.admits j && (r.isEmpty || !s.behindItem.isFull) && s.behindItem.admitsItems r

/-- Whether every member is admitted under its key. -/
def Shape.admitsMembers : Shape → List (Option String × Json) → Bool
  | _, [] => true
  | s, (k, j) :: r => (s.member k).admits j && s.admitsMembers r

end

/-! ## How a text starts -/

@[simp] theorem skipBlanks_cons {c : UInt8} (hc : isBlank c = false) (r : Bytes) :
    skipBlanks (c :: r) = c :: r := by simp [skipBlanks, hc]

/-- The first byte of a value is no blank and closes no array. -/
theorem render_head {j : Json} (hj : j.isExact = true) :
    ∃ c t, render j = c :: t ∧ isBlank c = false ∧ c ≠ 93 := by
  match j with
  | null => exact ⟨110, _, rfl, by decide, by decide⟩
  | bool true => exact ⟨116, _, rfl, by decide, by decide⟩
  | bool false => exact ⟨102, _, rfl, by decide, by decide⟩
  | natural n =>
    cases hd : digits n with
    | nil => exact absurd hd (digits_ne_nil n)
    | cons c t =>
      have hc : isDigit c = true :=
        isDigit_of_mem_digits c (by rw [hd]; exact List.mem_cons_self ..)
      refine ⟨c, t, by rw [render, hd], ?_, ?_⟩
      · cases hb : isBlank c with
        | false => rfl
        | true =>
          simp only [isBlank, Bool.or_eq_true, beq_iff_eq] at hb
          rcases hb with ((rfl | rfl) | rfl) | rfl <;> exact absurd hc (by decide)
      · rintro rfl
        exact absurd hc (by decide)
  | string (some s) => exact ⟨34, _, rfl, by decide, by decide⟩
  | array [] => exact ⟨91, _, rfl, by decide, by decide⟩
  | array (_ :: _) => exact ⟨91, _, rfl, by decide, by decide⟩
  | object [] => exact ⟨123, _, rfl, by decide, by decide⟩
  | object ((_, _) :: _) => exact ⟨123, _, rfl, by decide, by decide⟩

theorem endsNumber_renderItems (js : List Json) (r : Bytes) : EndsNumber (renderItems js ++ r) := by
  cases js <;> exact endsNumber_cons (by decide)

theorem endsNumber_renderMembers (ms : List (Option String × Json)) (r : Bytes) :
    EndsNumber (renderMembers ms ++ r) := by
  match ms with
  | [] | (_, _) :: _ => exact endsNumber_cons (by decide)

/-! ## One step of the reader -/

section
variable (n : Nat) (shape : Shape)

theorem readValue_string (s : String) (r : Bytes) :
    readValue (n + 1) shape (renderString (some s) ++ r) = some (string (some s), r) := by
  obtain ⟨t, ht, hr⟩ := readString_renderString s r
  rw [ht, readValue, skipBlanks_cons (by decide)]
  simp [hr]

theorem readValue_natural (k : Nat) {r : Bytes} (hr : EndsNumber r) :
    readValue (n + 1) shape (digits k ++ r) = some (natural k, r) := by
  have hread := readNumber_digits k hr
  cases hd : digits k with
  | nil => exact absurd hd (digits_ne_nil k)
  | cons c t =>
    have hc : isDigit c = true := isDigit_of_mem_digits c (by rw [hd]; exact List.mem_cons_self ..)
    have hne : ∀ d : UInt8, isDigit d = false → c ≠ d := by
      rintro d hf rfl
      exact absurd (hc.symm.trans hf) (by decide)
    have hb : isBlank c = false := by
      simp [isBlank, hne 32 (by decide), hne 9 (by decide), hne 10 (by decide), hne 13 (by decide)]
    rw [List.cons_append, readValue, skipBlanks_cons hb]
    simp only [hne 123 (by decide), hne 91 (by decide), hne 34 (by decide), hne 110 (by decide),
      hne 116 (by decide), hne 102 (by decide), reduceIte]
    rw [← List.cons_append, ← hd, hread]

theorem readValue_array {b : Bytes} {c : UInt8} {t : Bytes} (hb : b = c :: t)
    (hc : isBlank c = false) (hne : c ≠ 93) :
    readValue (n + 1) shape (91 :: b) =
      (readItems n shape b).map fun p => (array p.1, p.2) := by
  subst hb
  rw [readValue, skipBlanks_cons (by decide)]
  simp only [show (91 : UInt8) ≠ 123 by decide, reduceIte, skipBlanks_cons hc]
  split
  · next h => exact absurd (List.cons.inj h).1 hne
  · rfl

theorem readValue_object (b : Bytes) :
    readValue (n + 1) shape (123 :: 34 :: b) =
      (readMembers n shape (34 :: b)).map fun p => (object p.1, p.2) := by
  rw [readValue, skipBlanks_cons (by decide)]
  simp only [reduceIte, skipBlanks_cons (show isBlank 34 = false by decide)]
  split
  · next h => exact absurd (List.cons.inj h).1 (by decide)
  · rfl

end

/-! ## The reader on what was written -/

mutual

/-- **A value reads back** in front of anything, unless it is a number and that continues it, in as
many steps as its text has bytes. -/
theorem readValue_render : ∀ (j : Json) (shape : Shape) (n : Nat) (rest : Bytes), j.isExact = true →
    shape.admits j = true → (render j).length ≤ n → (∀ k, j = natural k → EndsNumber rest) →
    readValue n shape (render j ++ rest) = some (j, rest)
  | j, _, 0, _, hj, _, hn, _ => by
    obtain ⟨c, t, he, -, -⟩ := render_head hj
    rw [he] at hn
    cases hn
  | null, shape, n + 1, rest, _, _, _, _ => by
    rw [readValue]
    rfl
  | bool true, shape, n + 1, rest, _, _, _, _ => by
    rw [readValue]
    rfl
  | bool false, shape, n + 1, rest, _, _, _, _ => by
    rw [readValue]
    rfl
  | natural k, shape, n + 1, rest, _, _, _, hr => readValue_natural n shape k (hr k rfl)
  | string (some s), shape, n + 1, rest, _, _, _, _ => readValue_string n shape s rest
  | array [], shape, n + 1, rest, _, _, _, _ => by
    rw [readValue]
    rfl
  | array (j :: r), shape, n + 1, rest, hj, ha, hn, _ => by
    -- the first item does not start with the bracket that would end an empty array
    obtain ⟨c, t, he, hb, hne⟩ := render_head (Bool.and_eq_true_iff.mp hj).1
    rw [render, List.cons_append, readValue_array n shape (by rw [he]; rfl) hb hne,
      readItems_render (j :: r) shape n rest rfl hj ha (by simpa [render] using hn)]
    rfl
  | object [], shape, n + 1, rest, _, _, _, _ => by
    rw [readValue]
    rfl
  | object ((some k, j) :: r), shape, n + 1, rest, hj, ha, hn, _ => by
    have hread := readMembers_render ((some k, j) :: r) shape n rest rfl hj ha
      (by simpa [render] using hn)
    rw [render, List.cons_append]
    simp only [renderString, List.cons_append] at hread ⊢
    rw [readValue_object, hread]
    rfl

/-- Items read back up to the closing bracket. -/
theorem readItems_render : ∀ (items : List Json) (shape : Shape) (n : Nat) (rest : Bytes)
    {j : Json} {r : List Json}, items = j :: r → isExactItems items = true →
    shape.admitsItems items = true → (render j ++ renderItems r).length ≤ n →
    readItems n shape ((render j ++ renderItems r) ++ rest) = some (items, rest)
  | _, _, 0, _, j, r, rfl, hj, _, hn => by
    obtain ⟨c, t, he, -, -⟩ := render_head (Bool.and_eq_true_iff.mp hj).1
    simp [he] at hn
  | j :: r, shape, n + 1, rest, _, _, rfl, hj, ha, hn => by
    obtain ⟨hj, hr⟩ := Bool.and_eq_true_iff.mp hj
    obtain ⟨ha, har⟩ := Bool.and_eq_true_iff.mp ha
    obtain ⟨ha, hfull⟩ := Bool.and_eq_true_iff.mp ha
    rw [List.length_append] at hn
    -- the closing bracket alone leaves the item fewer bytes than the whole
    have hpos : 0 < (renderItems r).length := by cases r <;> simp [renderItems]
    have hvalue := readValue_render j shape.item n (renderItems r ++ rest) hj ha (by omega)
      fun _ _ => endsNumber_renderItems r rest
    rw [readItems, List.append_assoc, hvalue]
    cases r with
    | nil => rfl
    | cons k r =>
      -- an array that is full may not go on, and an admitted one does not
      have hopen : shape.behindItem.isFull = false := by simpa using hfull
      simp only [renderItems, List.length_cons] at hn
      have hitems := readItems_render (k :: r) shape.behindItem n rest rfl hr har (by omega)
      simp only [renderItems, List.cons_append, Option.bind_eq_bind, Option.bind_some,
        skipBlanks_cons (show isBlank 44 = false by decide), hopen, Bool.false_eq_true,
        reduceIte, hitems]
      rfl

/-- Members read back up to the closing brace. -/
theorem readMembers_render : ∀ (members : List (Option String × Json)) (shape : Shape) (n : Nat)
    (rest : Bytes) {k : Option String} {j : Json} {r : List (Option String × Json)},
    members = (k, j) :: r → isExactMembers members = true → shape.admitsMembers members = true →
    (renderString k ++ 58 :: (render j ++ renderMembers r)).length ≤ n →
    readMembers n shape ((renderString k ++ 58 :: (render j ++ renderMembers r)) ++ rest) =
      some (members, rest)
  | _, _, 0, _, k, _, _, rfl, _, _, hn => by simp at hn
  | (none, _) :: _, _, _ + 1, _, _, _, _, rfl, hj, _, _ => by simp [isExactMembers] at hj
  | (some k, j) :: r, shape, n + 1, rest, _, _, _, rfl, hj, ha, hn => by
    obtain ⟨hj, hr⟩ := Bool.and_eq_true_iff.mp hj
    obtain ⟨-, hj⟩ := Bool.and_eq_true_iff.mp hj
    obtain ⟨ha, har⟩ := Bool.and_eq_true_iff.mp ha
    simp only [List.length_append, List.length_cons] at hn
    obtain ⟨t, ht, hread⟩ :=
      readString_renderString k (58 :: (render j ++ (renderMembers r ++ rest)))
    have hvalue := readValue_render j (shape.member (some k)) n
      (renderMembers r ++ rest) hj ha (by omega) fun _ _ => endsNumber_renderMembers r rest
    rw [List.append_assoc, List.cons_append, List.append_assoc, ht, readMembers,
      skipBlanks_cons (by decide)]
    simp only [hread, Option.bind_eq_bind, Option.bind_some,
      skipBlanks_cons (show isBlank 58 = false by decide), hvalue]
    match r with
    | [] => rfl
    | (l, i) :: r =>
      simp only [renderMembers, List.length_cons, List.length_append] at hn
      have hmembers := readMembers_render ((l, i) :: r) shape n rest rfl hr har (by
        simp only [List.length_append, List.length_cons]
        omega)
      simp only [renderMembers, List.cons_append, List.append_assoc,
        skipBlanks_cons (show isBlank 44 = false by decide)] at hmembers ⊢
      rw [hmembers]
      rfl

end

/-! ## Whole texts -/

/-- A whole text reads back. -/
theorem parseAs?_render {j : Json} {shape : Shape} (hj : j.isExact = true)
    (ha : shape.admits j = true) :
    parseAs? shape (render j) = some j := by
  have h := readValue_render j shape ((render j).length + 1) [] hj ha (by omega)
    fun _ _ => endsNumber_nil
  rw [List.append_nil] at h
  simp [parseAs?, h, skipBlanks]

mutual

/-- Where any value is expected, every tree is admitted. -/
theorem Shape.admits_any : ∀ j : Json, Shape.any.admits j = true
  | array items => Shape.admitsItems_any items
  | object members => Shape.admitsMembers_any members
  | null | bool _ | natural _ | decimal _ | string _ => rfl

theorem Shape.admitsItems_any : ∀ items : List Json, Shape.any.admitsItems items = true
  | [] => rfl
  | j :: r => by
    simp [Shape.admitsItems, Shape.item, Shape.behindItem, Shape.isFull, Shape.admits_any j,
      Shape.admitsItems_any r]

theorem Shape.admitsMembers_any : ∀ members : List (Option String × Json),
    Shape.any.admitsMembers members = true
  | [] => rfl
  | (k, j) :: r => by
    simp [Shape.admitsMembers, Shape.member, Shape.admits_any j, Shape.admitsMembers_any r]

end

/-- **No two exact trees have the same text.** -/
theorem render_injective {i j : Json} (hi : i.isExact = true) (hj : j.isExact = true)
    (h : render i = render j) : i = j := by
  have hread := parseAs?_render hi (Shape.admits_any i)
  rw [h, parseAs?_render hj (Shape.admits_any j)] at hread
  exact (Option.some.inj hread).symm

/-- **No text of an object starts another one's**, so what stands behind it
is told apart from it. -/
theorem render_object_append {ms ns : List (Option String × Json)} (hm : (object ms).isExact = true)
    (hn : (object ns).isExact = true) {x y : Bytes}
    (h : render (object ms) ++ x = render (object ns) ++ y) : ms = ns ∧ x = y := by
  have hread : ∀ {ms : List (Option String × Json)} {x : Bytes} (n : Nat),
      (object ms).isExact = true →
      (render (object ms)).length ≤ n →
        readValue n .any (render (object ms) ++ x) = some (object ms, x) :=
    fun n hm hle => readValue_render _ .any n _ hm (Shape.admits_any _) hle nofun
  have hboth := hread (x := x) _ hm (Nat.le_add_right _ (render (object ns)).length)
  rw [h, hread _ hn (Nat.le_add_left _ _)] at hboth
  obtain ⟨ho, hrest⟩ := Prod.mk.inj (Option.some.inj hboth)
  exact ⟨(object.inj ho).symm, hrest.symm⟩

end SealedStore.Json
