import SealedStore.Proofs.Json.Exact
import SealedStore.Quantity
import SealedStore.Uuid

/-! # The trees of the encodings

The trees that are written are neat: every name stands once in a record, every number and every
literal is plain, and nothing is nested deeply (`Neat`).  Of a neat tree the reader of
transactions changes nothing, and the texts of numbers and identifiers read back
(`Quantity.ofJson?_toJson`, `Uuid.parse?_text`).
-/
namespace SealedStore

namespace Json

variable {α : Type}

/-- A tree of texts, lists and records without repeated names, nested at most `d` levels deep. -/
structure Neat (d : Nat) (j : Json) : Prop where
  exact : j.isExact = true
  plain : j.isPlain = true
  depth_le : j.depth ≤ d
  lastWins_eq : j.lastWins = j

theorem neat_null (d : Nat) : Neat d null := ⟨rfl, rfl, Nat.zero_le d, rfl⟩

theorem neat_text (d : Nat) (s : String) : Neat d (text s) := ⟨rfl, rfl, Nat.zero_le d, rfl⟩

theorem neat_ofBytes (d : Nat) (b : Bytes) : Neat d (ofBytes b) := neat_text d _

theorem neat_ofOctets (d : Nat) {n : Nat} (a : Octets n) : Neat d (ofOctets a) := neat_text d _

theorem neat_quantity (d : Nat) {w : Nat} (v : BitVec w) : Neat d (Quantity.toJson v) :=
  neat_text d _

/-- A list of neat trees. -/
theorem neat_array {d : Nat} {f : α → Json} (xs : List α) (h : ∀ x ∈ xs, Neat d (f x)) :
    Neat (d + 1) (array (xs.map f)) := by
  have hitems : isExactItems (xs.map f) = true ∧ isPlainItems (xs.map f) = true ∧
      depthItems (xs.map f) ≤ d ∧ lastWinsItems (xs.map f) = xs.map f := by
    induction xs with
    | nil => exact ⟨rfl, rfl, Nat.zero_le d, rfl⟩
    | cons x xs ih =>
      obtain ⟨hexact, hplain, hdepth, hlast⟩ := ih fun y hy => h y (List.mem_cons_of_mem x hy)
      have hx := h x List.mem_cons_self
      refine ⟨?_, ?_, ?_, ?_⟩
      · rw [List.map_cons, isExactItems, hx.exact, hexact, Bool.and_self]
      · rw [List.map_cons, isPlainItems, hx.plain, hplain, Bool.and_self]
      · rw [List.map_cons, depthItems]
        exact Nat.max_le.mpr ⟨hx.depth_le, hdepth⟩
      · rw [List.map_cons, lastWinsItems, hx.lastWins_eq, hlast]
  obtain ⟨hexact, hplain, hdepth, hlast⟩ := hitems
  exact ⟨hexact, hplain, Nat.succ_le_succ hdepth, by rw [lastWins, hlast]⟩

/-- A record of neat trees under names that all differ. -/
theorem neat_record {d : Nat} {fs : List (String × Json)} (hnames : (fs.map (·.1)).Nodup)
    (h : ∀ f ∈ fs, Neat d f.2) : Neat (d + 1) (record fs) := by
  have hmembers : isExactMembers (fs.map fun f => (some f.1, f.2)) = true ∧
      isPlainMembers (fs.map fun f => (some f.1, f.2)) = true ∧
      depthMembers (fs.map fun f => (some f.1, f.2)) ≤ d ∧
      lastWinsMembers (fs.map fun f => (some f.1, f.2)) = fs.map fun f => (some f.1, f.2) := by
    clear hnames
    induction fs with
    | nil => exact ⟨rfl, rfl, Nat.zero_le d, rfl⟩
    | cons f fs ih =>
      obtain ⟨hexact, hplain, hdepth, hlast⟩ := ih fun g hg => h g (List.mem_cons_of_mem f hg)
      have hf := h f List.mem_cons_self
      refine ⟨?_, ?_, ?_, ?_⟩
      · rw [List.map_cons, isExactMembers, hf.exact, hexact]
        rfl
      · rw [List.map_cons, isPlainMembers, hf.plain, hplain]
        rfl
      · rw [List.map_cons, depthMembers]
        exact Nat.max_le.mpr ⟨hf.depth_le, hdepth⟩
      · rw [List.map_cons, lastWinsMembers, hf.lastWins_eq, hlast]
  obtain ⟨hexact, hplain, hdepth, hlast⟩ := hmembers
  refine ⟨hexact, hplain, Nat.succ_le_succ hdepth, ?_⟩
  have hkeys : ((fs.map fun f => (some f.1, f.2)).map (·.1)).Nodup := by
    rw [List.map_map]
    refine List.Pairwise.map _ (fun a b hab he => hab ?_) (List.pairwise_map.mp hnames)
    exact Option.some.inj he
  rw [record, lastWins, hlast, lastOfEach_of_nodup hkeys]

/-! ## Lists and optional values -/

/-- A list reads back if its items do. -/
theorem list?_array {f : α → Json} {read : Json → Option α} (xs : List α)
    (h : ∀ x ∈ xs, read (f x) = some x) : list? read (array (xs.map f)) = some xs := by
  show (xs.map f).mapM read = some xs
  rw [List.mapM_map]
  induction xs with
  | nil => rfl
  | cons x xs ih =>
    have hx : (read ∘ f) x = some x := h x List.mem_cons_self
    rw [List.mapM_cons, hx, ih fun y hy => h y (List.mem_cons_of_mem x hy)]
    rfl

@[simp] theorem list?_array_ofOctets {n : Nat} (xs : List (Octets n)) :
    list? (octets? n) (array (xs.map ofOctets)) = some xs :=
  list?_array xs fun _ _ => octets?_ofOctets _

/-- A value that is written as something else than null reads back where it may be absent. -/
theorem optional?_of_ne_null {read : Json → Option α} {j : Json} {x : α} (hj : j ≠ null)
    (h : read j = some x) : optional? read (some j) = some (some x) := by
  unfold optional?
  split
  · next he => cases he
  · next he => exact absurd (Option.some.inj he) hj
  · next he =>
    cases he
    rw [h]
    rfl

end Json

/-! ## Numbers -/

namespace Quantity

theorem digitValue?_digitChar : ∀ d < 16, digitValue? (Nat.digitChar d) = some d := by decide

theorem digitChar_ne_underscore : ∀ d < 16, Nat.digitChar d ≠ '_' := by decide

theorem readFrom_append (base v : Nat) (cs ds : List Char) :
    readFrom base v (cs ++ ds) = (readFrom base v cs).bind fun u => readFrom base u ds := by
  induction cs generalizing v with
  | nil => rfl
  | cons c cs ih =>
    rw [List.cons_append, readFrom, readFrom]
    split
    · exact ih v
    · cases digitValue? c with
      | none => rfl
      | some d =>
        show (if d < base then _ else _) = Option.bind (if d < base then _ else _) _
        split
        · exact ih _
        · rfl

theorem readFrom_digit {v d : Nat} (hd : d < 16) :
    readFrom 16 v [Nat.digitChar d] = some (v * 16 + d) := by
  simp [readFrom, digitChar_ne_underscore d hd, digitValue?_digitChar d hd, hd]

/-- The digits of a number denote it. -/
theorem readFrom_toDigits (n : Nat) : readFrom 16 0 (Nat.toDigits 16 n) = some n := by
  induction n using Nat.base_induction 16 (by decide) with
  | single d hd => rw [Nat.toDigits_of_lt_base hd, readFrom_digit hd, Nat.zero_mul, Nat.zero_add]
  | digit n d hd hn ih =>
    rw [← Nat.toDigits_append_toDigits (by decide) hn hd, readFrom_append, ih,
      Nat.toDigits_of_lt_base hd, Option.bind_some, readFrom_digit hd, Nat.mul_comm]

theorem ofJson?_text {w n : Nat} (h : n < Nat.pow 2 w) :
    ofJson? w (.text (text n)) = some (BitVec.ofNat w n) := by
  have hread : read? (text n).toList = some n := by
    rw [text, String.toList_ofList]
    exact readFrom_toDigits n
  simpa [ofJson?, Json.text, hread] using h

@[simp] theorem ofJson?_toJson {w : Nat} (v : BitVec w) : ofJson? w (toJson v) = some v := by
  rw [toJson, ofJson?_text v.isLt, BitVec.ofNat_toNat, BitVec.setWidth_eq]

end Quantity

/-! ## Identifiers -/

namespace Uuid

/-- Digits in groups read back. -/
theorem unhyphenate_hyphenate : ∀ (ks : List Nat) (cs : List Char), cs.length = ks.foldr (· + ·) 0 →
    unhyphenate ks (hyphenate ks cs) = some cs
  | [], cs, h => by
    have hnil : cs = [] := List.length_eq_zero_iff.mp h
    simp [unhyphenate, hyphenate, hnil]
  | [k], cs, h => by
    have hk : cs.length = k := by simpa using h
    rw [hyphenate, unhyphenate, List.take_of_length_le (Nat.le_of_eq hk), if_pos hk]
  | k :: l :: ks, cs, h => by
    rw [List.foldr_cons] at h
    have htake : (cs.take k).length = k := by
      rw [List.length_take]
      omega
    have hrest := unhyphenate_hyphenate (l :: ks) (cs.drop k) (by rw [List.length_drop]; omega)
    have hdrop : (cs.take k ++ '-' :: hyphenate (l :: ks) (cs.drop k)).drop k =
        '-' :: hyphenate (l :: ks) (cs.drop k) := List.drop_left' htake
    rw [hyphenate, unhyphenate, hdrop]
    · simp only [hrest, Option.map_some, List.take_left' htake, List.take_append_drop]
    · exact nofun
    · exact nofun

/-- Every digit is read as itself by a reader that looks for marks. -/
theorem digit_facts : ∀ v < 16, Hex.digit v ≠ '\x7b' ∧ (Hex.digit v).toLower ≠ 'u' := by decide

theorem digits_head {b : Bytes} {c : Char} {cs : List Char} (h : Hex.digits b = c :: cs) :
    c ≠ '\x7b' ∧ c.toLower ≠ 'u' := by
  cases b with
  | nil => cases h
  | cons d r =>
    have hd : d.toNat < 256 := d.toNat_lt
    rw [Hex.digits, List.flatMap_cons, List.cons_append] at h
    cases h
    exact digit_facts _ (by omega)

/-- A text that starts with a digit is neither in braces nor marked. -/
theorem unwrap_of_head {c : Char} (hbrace : c ≠ '\x7b') (hmark : c.toLower ≠ 'u') (cs : List Char) :
    unwrap (c :: cs) = c :: cs := by
  have hne : ¬ ((c :: cs).take mark.length).map Char.toLower = mark := by
    intro h
    have hhead := congrArg List.head? h
    rw [show mark.length = 9 from rfl, List.take_succ_cons, List.map_cons, List.head?_cons] at hhead
    exact hmark (Option.some.inj hhead)
  unfold unwrap
  split
  · next h => exact absurd (List.cons.inj h).1 hbrace
  · rw [if_neg hne]

/-- **The written form of an identifier reads back.** -/
@[simp] theorem parse?_text (u : Uuid) : parse? (text u) = some u := by
  have hlength : (Hex.digits u.toList).length = 32 := by rw [Hex.length_digits, u.length_eq]
  have hread : ofDigits? (Hex.digits u.toList) = some u := by
    simp [ofDigits?, Hex.readDigits_digits, Except.toOption]
  have hhyphens : (hyphenate groups (Hex.digits u.toList)).length = 36 := by
    simp [groups, hyphenate, hlength]
  have hunwrap : unwrap (hyphenate groups (Hex.digits u.toList)) =
      hyphenate groups (Hex.digits u.toList) := by
    cases hd : Hex.digits u.toList with
    | nil => simp [hd] at hlength
    | cons c cs =>
      obtain ⟨hbrace, hmark⟩ := digits_head hd
      exact unwrap_of_head hbrace hmark _
  unfold parse? text
  simp only [String.toList_ofList]
  rw [if_neg (by rw [hhyphens]; decide), hunwrap,
    unhyphenate_hyphenate groups _ (by rw [hlength]; rfl), Option.bind_some, hread]

end Uuid
end SealedStore
