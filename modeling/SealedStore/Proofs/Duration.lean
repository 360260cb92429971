import Mathlib.Algebra.Ring.Nat
import SealedStore.Duration

/-! # Durations read back

A duration is written as amounts of ever smaller units, none of them zero.  Its reader goes
through digits, letters and blanks one by one; what it makes of a whole amount is told by
`readsOn_amount`, whatever the offsets are.  So the amounts of a text add up (`readsOn_amounts`),
and those of a written duration add up to it (`read_text`): years and months of odd lengths, and
single nanoseconds, alike.  This holds below the limit of whole seconds, where every duration is
that was read (`read_fits`).
-/
namespace SealedStore.Duration

open Phase

/-! ## Characters, one by one -/

/-- Whether these characters read to a duration, wherever they stand. -/
def Reads (d : Duration) (phase : Phase) (cs : List Char) (d' : Duration) : Prop :=
  ∀ i, readFrom d phase (withOffsets i cs) = .ok d'

/-- Whether these characters read to a duration where a number is expected. -/
def ReadsOn (d : Duration) (cs : List Char) (d' : Duration) : Prop :=
  ∀ start, Reads d (gap start) cs d'

/-- Whether a character can only be part of a unit. -/
def IsLetter (c : Char) : Prop := isUnitChar c = true ∧ c.isDigit = false ∧ Text.isBlank c = false

instance : DecidablePred IsLetter := fun _ => inferInstanceAs (Decidable (_ ∧ _))

variable {d d' d'' : Duration} {n : Nat} {f : Option Fraction} {letters cs r : List Char} {c : Char}

theorem le_ofDigitChars (cs : List Char) (n : Nat) : n ≤ Nat.ofDigitChars 10 cs n := by
  induction cs generalizing n with
  | nil => exact Nat.le_refl n
  | cons c cs ih =>
    have hrest := ih (10 * n + (c.toNat - '0'.toNat))
    rw [Nat.ofDigitChars, List.foldl_cons]
    exact Nat.le_trans (by omega) hrest

/-- More digits of a number. -/
theorem reads_digits (hcs : ∀ c ∈ cs, c.isDigit = true) (hlimit : Nat.ofDigitChars 10 cs n < limit)
    (h : Reads d (number (Nat.ofDigitChars 10 cs n)) r d') : Reads d (number n) (cs ++ r) d' := by
  induction cs generalizing n with
  | nil => exact h
  | cons c cs ih =>
    intro i
    have hdigit : 10 * n + (c.toNat - '0'.toNat) = n * 10 + digit c := by
      rw [Nat.mul_comm]
      rfl
    rw [Nat.ofDigitChars, List.foldl_cons, hdigit] at hlimit h
    have hsmall : n * 10 + digit c < limit := Nat.lt_of_le_of_lt (le_ofDigitChars cs _) hlimit
    have hrest := ih (fun b hb => hcs b (List.mem_cons_of_mem c hb)) hlimit h (i + c.utf8Size)
    rw [List.cons_append, withOffsets, readFrom]
    simpa [Phase.step, hcs c List.mem_cons_self, appendDigit, hsmall, bind, Except.bind, pure,
      Except.pure] using hrest

/-- A number. -/
theorem readsOn_number (hlimit : n < limit) (h : Reads d (number n) r d') :
    ReadsOn d (Nat.toDigits 10 n ++ r) d' := by
  intro start i
  have hdigits : ∀ c ∈ Nat.toDigits 10 n, c.isDigit = true := fun c hc =>
    Nat.isDigit_of_mem_toDigits (by decide) (by decide) hc
  have hnumber : Nat.ofDigitChars 10 (Nat.toDigits 10 n) 0 = n := Nat.ofDigitChars_ten_toDigits
  cases hcs : Nat.toDigits 10 n with
  | nil => exact absurd hcs Nat.toDigits_ne_nil
  | cons c cs =>
    rw [hcs] at hdigits hnumber
    have hfirst : Nat.ofDigitChars 10 cs (digit c) = n := by
      rw [Nat.ofDigitChars, List.foldl_cons, Nat.mul_zero, Nat.zero_add] at hnumber
      exact hnumber
    have hrest : Reads d (number (digit c)) (cs ++ r) d' :=
      reads_digits (fun b hb => hdigits b (List.mem_cons_of_mem c hb))
        (hfirst.symm ▸ hlimit) (hfirst.symm ▸ h)
    rw [List.cons_append, withOffsets, readFrom]
    simpa [Phase.step, hdigits c List.mem_cons_self, bind, Except.bind] using hrest (i + c.utf8Size)

/-- The first letter of a unit. -/
theorem reads_letter (hc : IsLetter c) (h : Reads d (unit n none [c]) r d') :
    Reads d (number n) (c :: r) d' := by
  intro i
  obtain ⟨hunit, hdigit, hblank⟩ := hc
  rw [withOffsets, readFrom]
  simpa [Phase.step, hunit, hdigit, hblank, bind, Except.bind] using h (i + c.utf8Size)

/-- More letters of a unit. -/
theorem reads_letters (hcs : ∀ c ∈ cs, IsLetter c)
    (h : Reads d (unit n f (cs.reverse ++ letters)) r d') :
    Reads d (unit n f letters) (cs ++ r) d' := by
  induction cs generalizing letters with
  | nil => exact h
  | cons c cs ih =>
    intro i
    obtain ⟨hunit, hdigit, hblank⟩ := hcs c List.mem_cons_self
    rw [List.reverse_cons, List.append_assoc] at h
    have hrest := ih (fun b hb => hcs b (List.mem_cons_of_mem c hb)) h (i + c.utf8Size)
    rw [List.cons_append, withOffsets, readFrom]
    simpa [Phase.step, hunit, hdigit, hblank, bind, Except.bind] using hrest

/-! ## Amounts -/

/-- The nanoseconds of a unit. -/
def Scale.size : Scale → Nat
  | .nanos k => k
  | .seconds k => k * nanosPerSecond

/-- An amount of a unit. -/
structure Amount where
  count : Nat
  unit : String
  scale : Scale

namespace Amount

/-- The nanoseconds of an amount. -/
def size (a : Amount) : Nat := a.count * a.scale.size

/-- An amount as characters. -/
def chars (a : Amount) : List Char := Nat.toDigits 10 a.count ++ a.unit.toList

end Amount

/-- Whether a unit has this name, which can be told from numbers and blanks. -/
def Scale.Named (s : Scale) (name : String) : Prop :=
  unit? name = some s ∧ 0 < s.size ∧ ∀ c ∈ name.toList, IsLetter c

instance (s : Scale) (name : String) : Decidable (s.Named name) :=
  -- the characters of the name are gone through, not all characters
  haveI := List.decidableBAll IsLetter name.toList
  inferInstanceAs (Decidable (_ ∧ _ ∧ _))

/-- Whether an amount is one of a unit with this name.  Of the units below a second there is
less than one second. -/
structure Amount.Legible (a : Amount) : Prop where
  named : a.scale.Named a.unit
  small : ∀ k, a.scale = .nanos k → a.count * k < nanosPerSecond

theorem Amount.Legible.unit_ne_nil {a : Amount} (ha : a.Legible) : a.unit.toList ≠ [] := by
  intro hunit
  have hnamed := ha.named.1
  rw [String.toList_eq_nil_iff.mp hunit] at hnamed
  cases hnamed

theorem limit_eq : limit = 18446744073709551616 := by decide

theorem subsec_lt (d : Duration) : d.subsec < nanosPerSecond := Nat.mod_lt _ (by decide)

/-- The amount of a unit that counts seconds comes to less than the limit, that of any other to
less than a second. -/
theorem Amount.Legible.product_lt {a : Amount} (ha : a.Legible) {k : Nat}
    (hscale : a.scale = .nanos k ∨ a.scale = .seconds k)
    (hsum : (d.nanos + a.size) / nanosPerSecond < limit) :
    a.count * k < limit := by
  rcases hscale with hscale | hscale
  · have hsmall := ha.small k hscale
    simp only [limit_eq, nanosPerSecond] at *
    omega
  · rw [size, hscale, Scale.size, ← Nat.mul_assoc] at hsum
    simp only [nanosPerSecond] at hsum
    omega

theorem Amount.Legible.count_lt {a : Amount} (ha : a.Legible)
    (hsum : (d.nanos + a.size) / nanosPerSecond < limit) :
    a.count < limit := by
  have hpos := ha.named.2.1
  cases hscale : a.scale with
  | nanos k =>
    rw [hscale, Scale.size] at hpos
    exact Nat.lt_of_le_of_lt (Nat.le_mul_of_pos_right _ hpos) (ha.product_lt (.inl hscale) hsum)
  | seconds k =>
    rw [hscale, Scale.size] at hpos
    have hk : 0 < k := Nat.pos_of_mul_pos_right hpos
    exact Nat.lt_of_le_of_lt (Nat.le_mul_of_pos_right _ hk) (ha.product_lt (.inr hscale) hsum)

/-- An amount is added, as long as the sum stays below the limit. -/
theorem plusAmount_legible {a : Amount} (ha : a.Legible)
    (hsum : (d.nanos + a.size) / nanosPerSecond < limit) :
    plusAmount d a.count none a.unit = .ok ⟨d.nanos + a.size⟩ := by
  have hsub := d.subsec_lt
  unfold plusAmount
  rw [ha.named.1]
  cases hscale : a.scale with
  | nanos k =>
    have htimes : times a.count k = .ok (a.count * k) := if_pos (ha.product_lt (.inl hscale) hsum)
    have hsize : a.size = a.count * k := by rw [Amount.size, hscale, Scale.size]
    have hplus : plus d 0 (a.count * k) = .ok ⟨d.nanos + a.size⟩ := by
      rw [plus, Nat.zero_mul, Nat.add_zero, ← hsize, if_pos]
      have hsmall := ha.small k hscale
      refine ⟨?_, hsum⟩
      simp only [limit_eq, nanosPerSecond] at *
      omega
    simp [htimes, hplus, bind, Except.bind, pure, Except.pure]
  | seconds k =>
    have htimes : times a.count k = .ok (a.count * k) := if_pos (ha.product_lt (.inr hscale) hsum)
    have hsize : a.size = a.count * k * nanosPerSecond := by
      rw [Amount.size, hscale, Scale.size, Nat.mul_assoc]
    have hplus : plus d (a.count * k) 0 = .ok ⟨d.nanos + a.size⟩ := by
      rw [plus, Nat.add_zero, Nat.add_zero, ← hsize, if_pos]
      refine ⟨?_, hsum⟩
      simp only [limit_eq, nanosPerSecond] at *
      omega
    simp [htimes, hplus, bind, Except.bind, pure, Except.pure]

/-- **An amount**, and what follows it. -/
theorem readsOn_amount {a : Amount} (ha : a.Legible)
    (hsum : (d.nanos + a.size) / nanosPerSecond < limit)
    (h : r = [] ∧ d' = ⟨d.nanos + a.size⟩ ∨
      ∃ r', r = ' ' :: r' ∧ ReadsOn ⟨d.nanos + a.size⟩ r' d') :
    ReadsOn d (a.chars ++ r) d' := by
  have hadd := plusAmount_legible ha hsum
  obtain ⟨-, -, hletters⟩ := ha.named
  rw [Amount.chars, List.append_assoc]
  refine readsOn_number (ha.count_lt hsum) ?_
  cases hunit : a.unit.toList with
  | nil => exact absurd hunit ha.unit_ne_nil
  | cons c cs =>
    rw [hunit] at hletters
    have hrest : ∀ b ∈ cs, IsLetter b := fun b hb => hletters b (List.mem_cons_of_mem c hb)
    refine reads_letter (hletters c List.mem_cons_self) (reads_letters hrest ?_)
    have hname : String.ofList (cs.reverse ++ [c]).reverse = a.unit := by
      rw [List.reverse_append, List.reverse_reverse, List.reverse_singleton,
        List.singleton_append, ← hunit, String.ofList_toList]
    intro i
    rcases h with ⟨rfl, rfl⟩ | ⟨r', rfl, h⟩
    · rw [withOffsets, readFrom, Phase.finish, hname]
      exact hadd
    · have hstep : Phase.step d ' ' i (unit a.count none (cs.reverse ++ [c])) =
          .ok (⟨d.nanos + a.size⟩, gap (i + (' ' : Char).utf8Size)) := by
        have hdigit : (' ' : Char).isDigit = false := by decide
        have hblank : Text.isBlank ' ' = true := by decide
        rw [Phase.step, hname, hadd]
        simp only [hdigit, hblank, Bool.false_eq_true, if_false, if_true]
        rfl
      rw [withOffsets, readFrom, hstep]
      exact h _ _

/-- **Amounts add up.** -/
theorem readsOn_amounts {a : Amount} {as : List Amount} (has : ∀ b ∈ a :: as, b.Legible)
    (hsum : (d.nanos + ((a :: as).map Amount.size).sum) / nanosPerSecond < limit) :
    ReadsOn d ([' '].intercalate ((a :: as).map Amount.chars))
      ⟨d.nanos + ((a :: as).map Amount.size).sum⟩ := by
  induction as generalizing a d with
  | nil =>
    rw [List.map_singleton, List.map_singleton, List.sum_singleton] at *
    have hone := readsOn_amount (r := []) (has a List.mem_cons_self) hsum (.inl ⟨rfl, rfl⟩)
    simpa using hone
  | cons b bs ih =>
    rw [List.map_cons, List.sum_cons, ← Nat.add_assoc] at *
    have hrest := ih (d := ⟨d.nanos + a.size⟩) (fun c hc => has c (List.mem_cons_of_mem a hc)) hsum
    have hfirst : (d.nanos + a.size) / nanosPerSecond < limit :=
      Nat.lt_of_le_of_lt (Nat.div_le_div_right (Nat.le_add_right _ _)) hsum
    have hone := readsOn_amount (has a List.mem_cons_self) hfirst (.inr ⟨_, rfl, hrest⟩)
    rw [Nat.add_assoc] at hone
    simpa [List.intercalate_cons_cons, Nat.add_assoc] using hone

/-! ## Written durations -/

/-- The amounts of a duration, the largest units first. -/
def amounts (d : Duration) : List Amount :=
  let s := d.seconds
  let ofMonth := s % 31557600 % 2630016
  let plural (n : Nat) (unit : String) : String := if n = 1 then unit else unit ++ "s"
  [⟨s / 31557600, plural (s / 31557600) "year", .seconds 31557600⟩,
    ⟨s % 31557600 / 2630016, plural (s % 31557600 / 2630016) "month", .seconds 2630016⟩,
    ⟨ofMonth / 86400, plural (ofMonth / 86400) "day", .seconds 86400⟩,
    ⟨ofMonth % 86400 / 3600, "h", .seconds 3600⟩, ⟨ofMonth % 3600 / 60, "m", .seconds 60⟩,
    ⟨ofMonth % 60, "s", .seconds 1⟩, ⟨d.subsec / 1000000, "ms", .nanos 1000000⟩,
    ⟨d.subsec / 1000 % 1000, "us", .nanos 1000⟩, ⟨d.subsec % 1000, "ns", .nanos 1⟩]

theorem legible_of_mem_amounts {a : Amount} (ha : a ∈ d.amounts) : a.Legible := by
  have hsub := d.subsec_lt
  have hplural : ∀ (n : Nat) (unit : String) (k : Nat), Scale.Named (.seconds k) unit →
      Scale.Named (.seconds k) (unit ++ "s") →
      Amount.Legible ⟨n, if n = 1 then unit else unit ++ "s", .seconds k⟩ := by
    intro n unit k hone hmore
    refine ⟨?_, nofun⟩
    show Scale.Named _ (if n = 1 then unit else unit ++ "s")
    split
    · exact hone
    · exact hmore
  have hseconds : ∀ (n : Nat) (unit : String) (k : Nat), Scale.Named (.seconds k) unit →
      Amount.Legible ⟨n, unit, .seconds k⟩ := fun n unit k h => ⟨h, nofun⟩
  have hnanos : ∀ (n : Nat) (unit : String) (k : Nat), Scale.Named (.nanos k) unit →
      n * k < nanosPerSecond →
      Amount.Legible ⟨n, unit, .nanos k⟩ := by
    intro n unit k h hsmall
    refine ⟨h, ?_⟩
    rintro _ ⟨⟩
    exact hsmall
  simp only [amounts, List.mem_cons, List.not_mem_nil, or_false] at ha
  simp only [nanosPerSecond] at hsub
  rcases ha with rfl | rfl | rfl | rfl | rfl | rfl | rfl | rfl | rfl
  · exact hplural _ _ _ (by decide) (by decide)
  · exact hplural _ _ _ (by decide) (by decide)
  · exact hplural _ _ _ (by decide) (by decide)
  · exact hseconds _ _ _ (by decide)
  · exact hseconds _ _ _ (by decide)
  · exact hseconds _ _ _ (by decide)
  · exact hnanos _ _ _ (by decide) (by simp only [nanosPerSecond]; omega)
  · exact hnanos _ _ _ (by decide) (by simp only [nanosPerSecond]; omega)
  · exact hnanos _ _ _ (by decide) (by simp only [nanosPerSecond]; omega)

/-- Days, hours, minutes and seconds. -/
theorem clock_split (m : Nat) :
    m / 86400 * 86400 + m % 86400 / 3600 * 3600 + m % 3600 / 60 * 60 + m % 60 = m := by
  have hday : m % 86400 % 3600 = m % 3600 := Nat.mod_mod_of_dvd m (by decide)
  have hhour : m % 3600 % 60 = m % 60 := Nat.mod_mod_of_dvd m (by decide)
  rw [Nat.add_assoc, ← hhour, Nat.mul_comm (m % 3600 / 60), Nat.div_add_mod, Nat.add_assoc, ← hday,
    Nat.mul_comm (m % 86400 / 3600), Nat.div_add_mod, Nat.mul_comm, Nat.div_add_mod]

/-- Milliseconds, microseconds and nanoseconds. -/
theorem fraction_split (n : Nat) :
    n / 1000000 * 1000000 + n / 1000 % 1000 * 1000 + n % 1000 = n := by
  have hmilli : n / 1000000 = n / 1000 / 1000 := (Nat.div_div_eq_div_mul n 1000 1000).symm
  rw [hmilli]
  omega

/-- What amounts add up to, when months, days and the smaller units each split what
the larger ones leave. -/
theorem sum_split {years months days hours minutes rest millis micros nanos s ofYear
    ofMonth sub total : Nat} (hyears : years * 31557600 + ofYear = s)
      (hmonths : months * 2630016 + ofMonth = ofYear)
    (hclock : days * 86400 + hours * 3600 + minutes * 60 + rest = ofMonth)
    (hfraction : millis * 1000000 + micros * 1000 + nanos = sub)
    (htotal : s * nanosPerSecond + sub = total) :
    [years * 31557600 * nanosPerSecond, months * 2630016 * nanosPerSecond,
      days * 86400 * nanosPerSecond, hours * 3600 * nanosPerSecond, minutes * 60 * nanosPerSecond,
        rest * nanosPerSecond,
      millis * 1000000, micros * 1000, nanos].sum = total := by
  subst hyears hmonths hclock hfraction htotal
  rw [List.sum_cons, List.sum_cons, List.sum_cons, List.sum_cons, List.sum_cons,
    List.sum_cons, List.sum_cons, List.sum_cons, List.sum_singleton]
  simp only [Nat.add_mul, Nat.add_assoc]

/-- The amounts of a duration add up to it. -/
theorem sum_amounts (d : Duration) : (d.amounts.map Amount.size).sum = d.nanos := by
  have hwhole : d.seconds * nanosPerSecond + d.subsec = d.nanos :=
    Nat.div_add_mod' d.nanos nanosPerSecond
  simp only [amounts, List.map_cons, List.map_nil, Amount.size, Scale.size,
    ← Nat.mul_assoc, Nat.mul_one]
  exact sum_split (Nat.div_add_mod' _ _) (Nat.div_add_mod' _ _) (clock_split _)
    (fraction_split _) hwhole

/-- The amounts that are not zero. -/
def nonzero (as : List Amount) : List Amount := as.filter (·.count ≠ 0)

theorem sum_nonzero (as : List Amount) :
    ((nonzero as).map Amount.size).sum = (as.map Amount.size).sum := by
  induction as with
  | nil => rfl
  | cons a as ih =>
    rw [List.map_cons, List.sum_cons, ← ih, nonzero, List.filter_cons]
    split
    · rfl
    · next h =>
      have hzero : a.count = 0 := by simpa using h
      rw [Amount.size, hzero, Nat.zero_mul, Nat.zero_add]
      rfl

/-- The parts of a text are the amounts that are not zero. -/
theorem map_toList_parts (as : List Amount) :
    (as.flatMap fun a => part a.count a.unit).map String.toList = (nonzero as).map
      Amount.chars := by
  induction as with
  | nil => rfl
  | cons a as ih =>
    rw [List.flatMap_cons, List.map_append, ih]
    by_cases ha : a.count = 0
    · simp [part, nonzero, ha]
    · simp [part, nonzero, ha, Amount.chars]

/-- The amounts that are written, of which there is at least one. -/
def written (d : Duration) : List Amount :=
  match nonzero d.amounts with
  | [] => [⟨0, "s", .seconds 1⟩]
  | a :: as => a :: as

theorem written_ne_nil (d : Duration) : d.written ≠ [] := by
  unfold written
  split <;> exact nofun

theorem legible_of_mem_written {a : Amount} (ha : a ∈ d.written) : a.Legible := by
  unfold written at ha
  split at ha
  · rw [List.mem_singleton.mp ha]
    exact ⟨by decide, nofun⟩
  · next hnonzero =>
    rw [← hnonzero] at ha
    exact legible_of_mem_amounts (List.mem_filter.mp ha).1

theorem sum_written (d : Duration) : (d.written.map Amount.size).sum = d.nanos := by
  rw [← sum_amounts d, ← sum_nonzero d.amounts]
  unfold written
  split
  · next hnonzero =>
    rw [hnonzero]
    rfl
  · next hnonzero => rw [hnonzero]

/-- A duration is written as its amounts with blanks between them. -/
theorem toList_text (d : Duration) :
    d.text.toList = [' '].intercalate (d.written.map Amount.chars) := by
  have hparts := map_toList_parts d.amounts
  have htext : d.text = if (d.amounts.flatMap fun a => part a.count a.unit).isEmpty then "0s"
      else " ".intercalate (d.amounts.flatMap fun a => part a.count a.unit) := by
    simp only [text, amounts, pluralPart, List.flatMap_cons, List.flatMap_nil, List.append_nil,
      List.append_assoc]
  rw [htext]
  unfold written
  cases hnonzero : nonzero d.amounts with
  | nil =>
    rw [hnonzero, List.map_nil, List.map_eq_nil_iff] at hparts
    rw [hparts]
    rfl
  | cons a as =>
    rw [hnonzero] at hparts
    have hsome : ¬ (d.amounts.flatMap fun a => part a.count a.unit).isEmpty = true := by
      rw [List.isEmpty_iff]
      intro hnone
      rw [hnone] at hparts
      cases hparts
    rw [if_neg hsome, String.toList_intercalate, hparts]
    rfl

theorem not_isBlank_of_isDigit (hc : c.isDigit = true) : Text.isBlank c = false := by
  simp only [Char.isDigit, Bool.and_eq_true, decide_eq_true_eq, ge_iff_le,
    UInt32.le_iff_toNat_le] at hc
  have hlow : 48 ≤ c.toNat := hc.1
  have hhigh : c.toNat ≤ 57 := hc.2
  simp only [Text.isBlank, Bool.or_eq_false_iff, Bool.and_eq_false_iff, decide_eq_false_iff_not,
    beq_eq_false_iff_ne]
  omega

/-- Whether the whole seconds are below the limit. -/
def Fits (d : Duration) : Prop := d.seconds < limit

instance : DecidablePred Fits := fun d => inferInstanceAs (Decidable (d.seconds < limit))

/-- What reads to a duration behind a digit is neither blank nor a lone zero. -/
theorem read_of_readsOn {s : String} (hs : s.toList = c :: r) (hc : c.isDigit = true) (hr : r ≠ [])
    (h : ReadsOn ⟨0⟩ s.toList d) : read s = .ok d := by
  have hzero : s ≠ "0" := by
    rintro rfl
    exact hr (List.cons.inj hs).2.symm
  have hblank : ¬ s.toList.all Text.isBlank = true := by
    rw [hs, List.all_cons, not_isBlank_of_isDigit hc]
    exact nofun
  rw [read, if_neg hzero, if_neg hblank]
  exact h 0 0

/-- **A written duration reads back**, if its seconds are below the limit. -/
theorem read_text (h : d.Fits) : read d.text = .ok d := by
  have hsum := sum_written d
  have hchars := toList_text d
  have hlegible : ∀ a ∈ d.written, a.Legible := fun a ha => legible_of_mem_written ha
  cases hwritten : d.written with
  | nil => exact absurd hwritten d.written_ne_nil
  | cons a as =>
    rw [hwritten] at hsum hchars hlegible
    have hreads := readsOn_amounts (d := ⟨0⟩) hlegible (by rw [hsum, Nat.zero_add]; exact h)
    rw [hsum, Nat.zero_add, ← hchars] at hreads
    -- the text starts with the digits of an amount, and its unit follows
    have hfirst : ∃ more, d.text.toList = Nat.toDigits 10 a.count ++ (a.unit.toList ++ more) := by
      rw [hchars, List.map_cons]
      cases as with
      | nil => exact ⟨[], by simp [Amount.chars]⟩
      | cons b bs =>
        rw [List.map_cons, List.intercalate_cons_cons, Amount.chars, List.append_assoc,
          List.append_assoc]
        exact ⟨_, rfl⟩
    obtain ⟨more, hmore⟩ := hfirst
    have hdigits : ∀ c ∈ Nat.toDigits 10 a.count, c.isDigit = true := fun c hc =>
      Nat.isDigit_of_mem_toDigits (by decide) (by decide) hc
    have hunit := (hlegible a List.mem_cons_self).unit_ne_nil
    cases hcount : Nat.toDigits 10 a.count with
    | nil => exact absurd hcount Nat.toDigits_ne_nil
    | cons c cs =>
      rw [hcount] at hdigits hmore
      refine read_of_readsOn hmore (hdigits c List.mem_cons_self) ?_ hreads
      simp [hunit]

/-! ## What is read is below the limit -/

/-- Whether the results of a computation have a property. -/
def Yields {α : Type} (x : Except Error α) (P : α → Prop) : Prop := ∀ a, x = .ok a → P a

section
variable {α β : Type} {P : α → Prop} {Q : β → Prop} {x : Except Error α} {g : α → Except Error β}

theorem Yields.error {e : Error} : Yields (.error e) P := nofun

theorem Yields.ok {a : α} (h : P a) : Yields (.ok a) P := by
  rintro _ ⟨⟩
  exact h

theorem Yields.bind (hx : Yields x P) (hg : ∀ a, P a → Yields (g a) Q) : Yields (x >>= g) Q := by
  cases x with
  | error e => exact .error
  | ok a => exact hg a (hx a rfl)

/-- Whatever the first part gives. -/
theorem Yields.behind (hg : ∀ a, Yields (g a) Q) : Yields (x >>= g) Q :=
  Yields.bind (P := fun _ => True) (fun _ _ => trivial) fun a _ => hg a

end

theorem plus_fits (d : Duration) (secs nanos : Nat) : Yields (plus d secs nanos) Fits := by
  unfold plus
  dsimp only
  split
  · next h => exact .ok h.2
  · exact .error

theorem plusAmount_fits (d : Duration) (n : Nat) (f : Option Fraction) (unit : String) :
    Yields (plusAmount d n f unit) Fits := by
  unfold plusAmount
  dsimp only
  split
  · exact .error
  · next scale _ =>
    -- the whole part is added in the same way for both kinds of unit
    rcases scale with k | k
    all_goals
      refine .behind fun _ => .bind (plus_fits _ _ _) fun whole hwhole => ?_
      split
      · exact .ok hwhole
      · exact .error
      · exact .behind fun _ => .behind fun _ => plus_fits _ _ _
      · split
        · exact .behind fun _ => .behind fun _ => plus_fits _ _ _
        · exact .behind fun _ => .behind fun _ => plus_fits _ _ _

/-- A character adds an amount at most. -/
theorem step_fits (hd : d.Fits) (c : Char) (offset : Nat) (phase : Phase) :
    Yields (phase.step d c offset) fun x => x.1.Fits := by
  have hsame : ∀ q : Phase, Yields (.ok (d, q)) fun x : Duration × Phase => x.1.Fits :=
    fun q => .ok hd
  have hadd : ∀ n f u (q : Phase),
      Yields (do pure (← plusAmount d n f u, q)) fun x : Duration × Phase => x.1.Fits :=
    fun n f u q => .bind (plusAmount_fits d n f u) fun _ h => .ok h
  unfold Phase.step
  split
  · split
    · exact hsame _
    · split
      · exact hsame _
      · exact .error
  · split
    · exact .behind fun _ => hsame _
    · split
      · exact hsame _
      · split
        · exact hsame _
        · split
          · exact hsame _
          · exact .error
  · split
    · exact .behind fun _ => hsame _
    · split
      · exact hsame _
      · split
        · exact .behind fun _ => hsame _
        · exact .error
  · split
    · exact hadd _ _ _ _
    · split
      · exact hadd _ _ _ _
      · split
        · exact hsame _
        · exact .error

theorem finish_fits (hd : d.Fits) (phase : Phase) : Yields (phase.finish d) Fits := by
  cases phase with
  | gap _ => exact .ok hd
  | number n => exact plusAmount_fits d n none ""
  | fraction n f last => exact .behind fun _ => plusAmount_fits _ _ _ _
  | unit n f letters => exact plusAmount_fits _ _ _ _

theorem readFrom_fits (hd : d.Fits) (phase : Phase) (cs : List (Char × Nat)) :
    Yields (readFrom d phase cs) Fits := by
  induction cs generalizing d phase with
  | nil => exact finish_fits hd phase
  | cons c cs ih => exact .bind (step_fits hd c.1 c.2 phase) fun x hx => ih hx x.2

/-- **What is read is below the limit.** -/
theorem read_fits (s : String) : Yields (read s) Fits := by
  have hzero : Fits ⟨0⟩ := by decide
  unfold read
  split
  · exact .ok hzero
  · split
    · exact .error
    · exact readFrom_fits hzero _ _

end SealedStore.Duration
