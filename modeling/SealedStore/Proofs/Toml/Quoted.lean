import SealedStore.Toml.Quoted

/-! # Quoted strings read back

Whatever form a text is written in, what is read of it is the text again, and what follows is
left (`read_render`).  A long string ends at three quotes in a row, of which up to two more may
belong to the text; the writer leaves at most two quotes in a row within a text, and this is what
makes the end unmistakable.
-/
namespace SealedStore.Toml.Quoted

variable {q c : Char} {s r rest : List Char}

/-- Whether a text does not start with a quote, so that it cannot prolong a
string in front of it. -/
def Apart (rest : List Char) : Prop := ∀ c ∈ rest.head?, c ≠ '"' ∧ c ≠ '\''

theorem push_some (c : Char) (cs rest : List Char) : push (some c) (some (cs, rest)) =
    some (c :: cs, rest) := rfl

/-! ## Characters -/

/-- A code reads back. -/
theorem coded?_codeEscape {c : Char} (hc : c.toNat < 128) :
    coded? ['0', '0', codeDigit (c.toNat / 16), codeDigit (c.toNat % 16)] = some c := by
  have hall : ∀ n < 128, coded? ['0', '0', codeDigit (n / 16), codeDigit (n % 16)] =
      some (Char.ofNat n) := by
    decide
  rw [hall _ hc, Char.ofNat_toNat]

theorem isOpen_of_not_control {c : Char} (hc : ¬ (c.toNat < 32 || c.toNat = 127) = true) :
    isOpen c = true := by
  simp only [Bool.or_eq_true, decide_eq_true_eq, not_or, Nat.not_lt] at hc
  simp [isOpen, hc]

/-- Whether a character stands for itself in every basic string. -/
def IsPlain (c : Char) : Prop := isOpen c = true ∧ c ≠ '"' ∧ c ≠ '\\' ∧ c ≠ '\n' ∧ c ≠ '\r'

/-- The escape of a character, as what the readers of basic strings meet. -/
inductive Escape (multiline : Bool) (c : Char) : List Char → Prop where
  /-- A letter behind a backslash. -/
  | letter (e : Char) (he : escaped? e = some c) (hu : e ≠ 'u' ∧ e ≠ 'U')
      (hblank : e ≠ ' ' ∧ e ≠ '\t' ∧ e ≠ '\n' ∧ e ≠ '\r') : Escape multiline c ['\\', e]
  /-- A code. -/
  | code (a b : Char) (hcode : coded? ['0', '0', a, b] = some c) :
      Escape multiline c ['\\', 'u', '0', '0', a, b]
  /-- A line feed, which stands for itself in a string of more than one line. -/
  | lineFeed (hline : multiline = true) (hc : c = '\n') : Escape multiline c [c]
  /-- Any other character. -/
  | plain (hc : IsPlain c) : Escape multiline c [c]

theorem escape_cases (multiline : Bool) {c : Char} (hquote : c ≠ '"') :
    Escape multiline c (escape multiline c) := by
  unfold escape
  by_cases h1 : c = '\\'
  · rw [if_pos h1, h1]
    exact .letter _ rfl (by decide) (by decide)
  rw [if_neg h1]
  by_cases h2 : c = '\t'
  · rw [if_pos h2, h2]
    exact .letter _ rfl (by decide) (by decide)
  rw [if_neg h2]
  by_cases h3 : c = '\n'
  · rw [if_pos h3, h3]
    cases multiline with
    | true => exact .lineFeed rfl rfl
    | false => exact .letter _ rfl (by decide) (by decide)
  rw [if_neg h3]
  by_cases h4 : c = '\r'
  · rw [if_pos h4, h4]
    exact .letter _ rfl (by decide) (by decide)
  rw [if_neg h4]
  by_cases h5 : c = '\x08'
  · rw [if_pos h5, h5]
    exact .letter _ rfl (by decide) (by decide)
  rw [if_neg h5]
  by_cases h6 : c = '\x0c'
  · rw [if_pos h6, h6]
    exact .letter _ rfl (by decide) (by decide)
  rw [if_neg h6]
  by_cases h7 : (c.toNat < 32 || c.toNat = 127) = true
  · rw [if_pos h7]
    refine .code _ _ (coded?_codeEscape ?_)
    simp only [Bool.or_eq_true, decide_eq_true_eq] at h7
    omega
  · rw [if_neg h7]
    exact .plain ⟨isOpen_of_not_control h7, hquote, h1, h3, h4⟩

/-! ## Strings on one line -/

/-- An escape behind its backslash, in front of what a reader makes of the rest. -/
def readEscape (next : List Char → Option (List Char × List Char)) :
    List Char → Option (List Char × List Char)
  | [] => none
  | e :: r =>
    if e = 'u' then
      match r with
      | a :: b :: c :: d :: r => push (coded? [a, b, c, d]) (next r)
      | _ => none
    else if e = 'U' then
      match r with
      | a :: b :: c :: d :: e :: f :: g :: h :: r => push (coded? [a, b, c, d, e, f, g, h]) (next r)
      | _ => none
    else push (escaped? e) (next r)

theorem readEscape_letter {e : Char} (he : e ≠ 'u' ∧ e ≠ 'U')
    (next : List Char → Option (List Char × List Char)) (r : List Char) :
    readEscape next (e :: r) = push (escaped? e) (next r) := by
  simp [readEscape, he]

/-- What the reader of a string on one line does with a character. -/
theorem readBasic_cons (c : Char) (r : List Char) :
    readBasic (c :: r) =
      if c = '"' then some ([], r)
      else if c = '\\' then readEscape readBasic r
      else if isOpen c then push (some c) (readBasic r)
      else none := by
  rw [readBasic.eq_def]
  rfl

theorem readBasic_slash (r : List Char) : readBasic ('\\' :: r) = readEscape readBasic r := by
  rw [readBasic_cons, if_neg (by decide), if_pos rfl]

theorem readBasic_plain (hc : IsPlain c) (r : List Char) :
    readBasic (c :: r) = push (some c) (readBasic r) := by
  obtain ⟨hopen, hquote, hslash, -⟩ := hc
  rw [readBasic_cons, if_neg hquote, if_neg hslash, if_pos hopen]

/-- An escaped character reads back. -/
theorem readBasic_escape (hquote : c ≠ '"') (r : List Char) :
    readBasic (escape false c ++ r) = push (some c) (readBasic r) := by
  have hescape := escape_cases false hquote
  revert hescape
  generalize escape false c = cs
  intro hescape
  cases hescape with
  | letter e he hu _ => exact he ▸ (readBasic_slash _).trans (readEscape_letter hu _ r)
  | code a b hcode => exact hcode ▸ readBasic_slash _
  | lineFeed hline => cases hline
  | plain hc => exact readBasic_plain hc r

/-- **A basic string** reads back. -/
theorem readBasic_escapeAll (s rest : List Char) (run : Nat) :
    readBasic (escapeAll false 0 run s ++ '"' :: rest) = some (s, rest) := by
  induction s generalizing run with
  | nil => exact readBasic_cons '"' rest
  | cons c s ih =>
    rw [escapeAll]
    by_cases hc : c = '"'
    · rw [if_pos hc, if_neg (Nat.not_lt_zero run), List.cons_append,
        List.cons_append, readBasic_slash, readEscape_letter (by decide), ih, hc]
      rfl
    · rw [if_neg hc, List.append_assoc, readBasic_escape hc, ih, push_some]

/-- **A literal string** reads back, if it has no quotes and no control characters. -/
theorem readLiteral_append (hs : ∀ c ∈ s, c ≠ '\'' ∧ isOpen c = true) (rest : List Char) :
    readLiteral (s ++ '\'' :: rest) = some (s, rest) := by
  induction s with
  | nil => rfl
  | cons c s ih =>
    obtain ⟨hquote, hopen⟩ := hs c List.mem_cons_self
    rw [List.cons_append, readLiteral, if_neg hquote, if_pos hopen,
      ih fun b hb => hs b (List.mem_cons_of_mem c hb), push_some]

/-! ## Strings between triple quotes -/

section
variable (hrest : rest.head? ≠ some q)
include hrest

/-- Three quotes end a string. -/
theorem close?_zero : close? q (q :: q :: rest) = some ([], rest) := by
  match rest with
  | [] => simp [close?]
  | [d] =>
    have hd : d ≠ q := by simpa using hrest
    simp [close?, hd]
  | d :: e :: r =>
    have hd : d ≠ q := by simpa using hrest
    simp [close?, hd]

/-- One quote in front of them belongs to it. -/
theorem close?_one : close? q (q :: q :: q :: rest) = some ([q], rest) := by
  cases rest with
  | nil => simp [close?]
  | cons e r =>
    have he : e ≠ q := by simpa using hrest
    simp [close?, he]

end

/-- So do two. -/
theorem close?_two (q : Char) (rest : List Char) :
    close? q (q :: q :: q :: q :: rest) = some ([q, q], rest) := by
  simp [close?]

/-- One quote alone ends nothing. -/
theorem close?_of_first (hc : c ≠ q) (r : List Char) : close? q (c :: r) = none := by
  match r with
  | [] => rfl
  | [_] => simp [close?, hc]
  | [_, _] => simp [close?, hc]
  | _ :: _ :: _ :: _ => simp [close?, hc]

/-- Nor do two. -/
theorem close?_of_second (hc : c ≠ q) (r : List Char) : close? q (q :: c :: r) = none := by
  match r with
  | [] => simp [close?, hc]
  | [_] => simp [close?, hc]
  | _ :: _ :: _ => simp [close?, hc]

/-- What the reader of a basic string between triple quotes does with a character. -/
theorem readLongBasic_cons (c : Char) (r : List Char) :
    readLongBasic false (c :: r) =
      if c = '\r' then if r.head? = some '\n' then readLongBasic false r else none
      else if c = '\n' then push (some c) (readLongBasic false r)
      else if c = '"' then
        match close? '"' r with
        | some closed => some closed
        | none => push (some c) (readLongBasic false r)
      else if c = '\\' then
        if endsLine r then readLongBasic true r else readEscape (readLongBasic false) r
      else if isOpen c then push (some c) (readLongBasic false r)
      else none := by
  rw [readLongBasic.eq_def]
  rfl

theorem readLongBasic_quote (r : List Char) :
    readLongBasic false ('"' :: r) =
      match close? '"' r with
      | some closed => some closed
      | none => push (some '"') (readLongBasic false r) := by
  rw [readLongBasic_cons, if_neg (by decide), if_neg (by decide), if_pos rfl]

theorem readLongBasic_of_closed {closed : List Char × List Char} (h : close? '"' r = some closed) :
    readLongBasic false ('"' :: r) = some closed := by
  rw [readLongBasic_quote, h]

theorem readLongBasic_of_open (h : close? '"' r = none) :
    readLongBasic false ('"' :: r) = push (some '"') (readLongBasic false r) := by
  rw [readLongBasic_quote, h]

/-- A backslash in front of what is no blank starts an escape. -/
theorem readLongBasic_slash {e : Char} (hblank : e ≠ ' ' ∧ e ≠ '\t' ∧ e ≠ '\n' ∧ e ≠ '\r')
    (r : List Char) :
    readLongBasic false ('\\' :: e :: r) = readEscape (readLongBasic false) (e :: r) := by
  have hline : ¬ endsLine (e :: r) = true := by simp [endsLine, hblank]
  rw [readLongBasic_cons, if_neg (by decide), if_neg (by decide), if_neg (by decide),
    if_pos rfl, if_neg hline]

theorem readLongBasic_plain (hc : IsPlain c) (r : List Char) :
    readLongBasic false (c :: r) = push (some c) (readLongBasic false r) := by
  obtain ⟨hopen, hquote, hslash, hfeed, hreturn⟩ := hc
  rw [readLongBasic_cons, if_neg hreturn, if_neg hfeed, if_neg hquote, if_neg hslash, if_pos hopen]

theorem readLongBasic_escape (hquote : c ≠ '"') (r : List Char) :
    readLongBasic false (escape true c ++ r) = push (some c) (readLongBasic false r) := by
  have hescape := escape_cases true hquote
  revert hescape
  generalize escape true c = cs
  intro hescape
  cases hescape with
  | letter e he hu hblank =>
    exact he ▸ (readLongBasic_slash hblank r).trans (readEscape_letter hu _ r)
  | code a b hcode => exact hcode ▸ readLongBasic_slash (by decide) _
  | lineFeed _ hc => exact hc ▸ readLongBasic_cons '\n' r
  | plain hc => exact readLongBasic_plain hc r

/-- What an escaped character starts with is no quote. -/
theorem exists_escape (multiline : Bool) (hquote : c ≠ '"') :
    ∃ b r, escape multiline c = b :: r ∧ b ≠ '"' ∧ (c ≠ '\n' → b ≠ '\n') ∧ b ≠ '\r' := by
  have hescape := escape_cases multiline hquote
  revert hescape
  generalize escape multiline c = cs
  intro hescape
  cases hescape with
  | letter e he hu hblank => exact ⟨_, _, rfl, by decide, fun _ => by decide, by decide⟩
  | code a b hcode => exact ⟨_, _, rfl, by decide, fun _ => by decide, by decide⟩
  | lineFeed _ hc => exact ⟨_, _, rfl, hquote, fun hline => hline, hc ▸ by decide⟩
  | plain hc => exact ⟨_, _, rfl, hc.2.1, fun _ => hc.2.2.2.1, hc.2.2.2.2⟩

/-- The end of a long basic string, and what follows. -/
abbrev ending (q : Char) (rest : List Char) : List Char := q :: q :: q :: rest

/-- What stands behind as many quotes as there is room for, or is no quote, starts with none. -/
theorem exists_escapeAll {multiline : Bool} {room run : Nat} (hs : s ≠ [])
    (hhead : s.head? ≠ some '"' ∨ room ≤ run) :
    ∃ b r, escapeAll multiline room run s = b :: r ∧ b ≠ '"' := by
  cases s with
  | nil => exact absurd rfl hs
  | cons c s =>
    rw [escapeAll]
    by_cases hc : c = '"'
    · have hroom : ¬ run < room := Nat.not_lt.mpr (hhead.resolve_left (by simp [hc]))
      rw [if_pos hc, if_neg hroom]
      exact ⟨_, _, rfl, by decide⟩
    · obtain ⟨b, r, hb, hquote, -, -⟩ := exists_escape multiline hc
      rw [if_neg hc, hb]
      exact ⟨_, _, rfl, hquote⟩

/-- **What follows a quote that stands for itself** ends the string only with the text: with
none or one more quote. -/
theorem close?_escapeAll (hrest : rest.head? ≠ some '"') (s : List Char)
    {run : Nat} (hrun : run ≤ 2) (hpos : 0 < run) :
    close? '"' (escapeAll true 2 run s ++ ending '"' rest) = some ('"' :: s, rest) ∨
      close? '"' (escapeAll true 2 run s ++ ending '"' rest) = none := by
  by_cases hs : s = []
  · subst hs
    exact .inl (close?_one hrest)
  by_cases hhead : s.head? ≠ some '"' ∨ 2 ≤ run
  · obtain ⟨b, r, hb, hquote⟩ := exists_escapeAll hs hhead
    rw [hb]
    exact .inr (close?_of_first hquote _)
  -- one quote has been written, and one more stands next
  obtain ⟨hquote, hone⟩ := not_or.mp hhead
  obtain ⟨s, rfl⟩ := List.head?_eq_some_iff.mp (Decidable.not_not.mp hquote)
  obtain rfl : run = 1 := by omega
  rw [escapeAll, if_pos rfl, if_pos (by decide), List.cons_append]
  by_cases hs : s = []
  · subst hs
    exact .inl (close?_two '"' rest)
  · obtain ⟨b, r, hb, hquote⟩ := exists_escapeAll hs (.inr (Nat.le_refl 2))
    rw [hb]
    exact .inr (close?_of_second hquote _)

/-- **A long basic string** reads back, whatever number of quotes was written in front. -/
theorem readLongBasic_escapeAll (hrest : rest.head? ≠ some '"') (s : List Char) {run : Nat}
    (hrun : run ≤ 2) :
    readLongBasic false (escapeAll true 2 run s ++ ending '"' rest) = some (s, rest) := by
  induction s generalizing run with
  | nil => exact readLongBasic_of_closed (close?_zero hrest)
  | cons c s ih =>
    rw [escapeAll]
    by_cases hc : c = '"'
    · rw [if_pos hc, hc]
      split
      · next hroom =>
        rw [List.cons_append]
        rcases close?_escapeAll hrest s hroom (Nat.succ_pos run) with hclosed | hopen
        · exact readLongBasic_of_closed hclosed
        · rw [readLongBasic_of_open hopen, ih hroom, push_some]
      · rw [List.cons_append, List.cons_append, readLongBasic_slash (by decide),
          readEscape_letter (by decide), ih (Nat.zero_le 2)]
        rfl
    · rw [if_neg hc, List.append_assoc, readLongBasic_escape hc, ih (Nat.zero_le 2), push_some]

/-! ### Literal -/

theorem le_longestRun (q : Char) (s : List Char) (current best : Nat) :
    current ≤ longestRun q current best s ∧ best ≤ longestRun q current best s := by
  induction s generalizing current best with
  | nil => exact ⟨Nat.le_max_left .., Nat.le_max_right ..⟩
  | cons c s ih =>
    rw [longestRun]
    split
    · obtain ⟨hcurrent, hbest⟩ := ih (current + 1) best
      exact ⟨by omega, hbest⟩
    · obtain ⟨-, hbest⟩ := ih 0 (max current best)
      exact ⟨by omega, by omega⟩

/-- No run of a character, no character. -/
theorem notMem_of_longestRun {current best : Nat} (h : longestRun q current best s = 0) :
    q ∉ s := by
  induction s generalizing current best with
  | nil => exact List.not_mem_nil
  | cons c s ih =>
    rw [longestRun] at h
    split at h
    · have hcurrent := (le_longestRun q s (current + 1) best).1
      omega
    · next hc =>
      rw [List.mem_cons, not_or]
      exact ⟨fun heq => hc heq.symm, ih h⟩

theorem readLongLiteral_of_closed {closed : List Char × List Char}
    (h : close? '\'' r = some closed) :
    readLongLiteral ('\'' :: r) = some closed := by
  rw [readLongLiteral, if_neg (by decide), if_pos rfl, h]

theorem readLongLiteral_of_open (h : close? '\'' r = none) :
    readLongLiteral ('\'' :: r) = push (some '\'') (readLongLiteral r) := by
  rw [readLongLiteral, if_neg (by decide), if_pos rfl, h]

theorem readLongLiteral_plain (hc : (c = '\n' || isOpen c) = true)
    (hquote : c ≠ '\'') (r : List Char) :
    readLongLiteral (c :: r) = push (some c) (readLongLiteral r) := by
  have hreturn : c ≠ '\r' := by
    rintro rfl
    exact absurd hc (by decide)
  rw [readLongLiteral, if_neg hreturn, if_neg hquote, if_pos hc]

/-- What follows a quote ends the string only with the text, if there is no longer run of quotes. -/
theorem close?_append (hrest : rest.head? ≠ some q) {current best : Nat}
    (hrun : longestRun q (current + 1) best s ≤ 2) :
    close? q (s ++ ending q rest) = some (q :: s, rest) ∨ close? q (s ++ ending q rest) = none := by
  cases s with
  | nil => exact .inl (close?_one hrest)
  | cons c s =>
    by_cases hc : c = q
    · subst hc
      rw [longestRun, if_pos rfl] at hrun
      cases s with
      | nil => exact .inl (close?_two c rest)
      | cons d s =>
        have hd : d ≠ c := by
          rintro rfl
          rw [longestRun, if_pos rfl] at hrun
          have hcurrent := (le_longestRun d s (current + 1 + 1 + 1) best).1
          omega
        exact .inr (close?_of_second hd _)
    · exact .inr (close?_of_first hc _)

/-- **A long literal string** reads back, if no three quotes stand in a row and no
control characters in it. -/
theorem readLongLiteral_append (hrest : rest.head? ≠ some '\'')
    (hs : ∀ c ∈ s, (c = '\n' || isOpen c) = true)
    {current best : Nat} (hrun : longestRun '\'' current best s ≤ 2) :
    readLongLiteral (s ++ ending '\'' rest) = some (s, rest) := by
  induction s generalizing current best with
  | nil => exact readLongLiteral_of_closed (close?_zero hrest)
  | cons c s ih =>
    have hopens : ∀ b ∈ s, (b = '\n' || isOpen b) = true :=
      fun b hb => hs b (List.mem_cons_of_mem c hb)
    rw [longestRun] at hrun
    rw [List.cons_append]
    by_cases hc : c = '\''
    · rw [if_pos hc] at hrun
      rw [hc]
      rcases close?_append hrest hrun with hclosed | hopen
      · exact readLongLiteral_of_closed hclosed
      · rw [readLongLiteral_of_open hopen, ih hopens hrun, push_some]
    · rw [if_neg hc] at hrun
      rw [readLongLiteral_plain (hs c List.mem_cons_self) hc, ih hopens hrun, push_some]

/-! ## Any form -/

theorem skipLineEnd_of_head (h : ∀ c ∈ r.head?, c ≠ '\n' ∧ c ≠ '\r') : skipLineEnd r = r := by
  unfold skipLineEnd
  split
  · exact absurd rfl (h '\n' rfl).1
  · exact absurd rfl (h '\r' rfl).2
  · rfl

/-- Behind the opening quotes the text is met, if it does not start with what only a
text of more lines may. -/
theorem skipLineEnd_opening (h : '\n' ∉ s → ∀ c ∈ r.head?, c ≠ '\n' ∧ c ≠ '\r') :
    skipLineEnd (opening s ++ r) = r := by
  unfold opening
  split
  · rfl
  · next hline => exact skipLineEnd_of_head (h (by simpa using hline))

/-- One quote that no two others follow opens a string on one line. -/
theorem read_of_quote (h : ∀ r', r ≠ '"' :: '"' :: r') : read ('"' :: r) = readBasic r := by
  unfold read
  split
  · next heq =>
    cases heq
    exact absurd rfl (h _)
  · next heq =>
    cases heq
    rfl
  · next heq => cases heq
  · next heq => cases heq
  · next hbasic _ _ => exact absurd rfl (hbasic r)

theorem read_of_apostrophe (h : ∀ r', r ≠ '\'' :: '\'' :: r') :
    read ('\'' :: r) = readLiteral r := by
  unfold read
  split
  · next heq => cases heq
  · next heq => cases heq
  · next heq =>
    cases heq
    exact absurd rfl (h _)
  · next heq =>
    cases heq
    rfl
  · next hliteral => exact absurd rfl (hliteral r)

theorem read_basic (hrest : rest.head? ≠ some '"') (s : List Char) :
    read (write s .basic ++ rest) = some (s, rest) := by
  rw [write, List.append_assoc, List.cons_append, List.singleton_append, read_of_quote]
  · exact readBasic_escapeAll s rest 0
  · intro r hr
    by_cases hs : s = []
    · subst hs
      rw [escapeAll, List.nil_append, List.cons.injEq] at hr
      exact hrest (hr.2 ▸ rfl)
    · obtain ⟨b, r', hb, hquote⟩ : ∃ b r', escapeAll false 0 0 s = b :: r' ∧ b ≠ '"' :=
        exists_escapeAll hs (.inr (Nat.le_refl 0))
      rw [hb, List.cons_append, List.cons.injEq] at hr
      exact hquote hr.1

theorem read_literal (hrest : rest.head? ≠ some '\'') (hs : ∀ c ∈ s, c ≠ '\'' ∧ isOpen c = true) :
    read (write s .literal ++ rest) = some (s, rest) := by
  rw [write, List.append_assoc, List.cons_append, List.singleton_append, read_of_apostrophe]
  · exact readLiteral_append hs rest
  · intro r hr
    cases s with
    | nil =>
      rw [List.nil_append, List.cons.injEq] at hr
      exact hrest (hr.2 ▸ rfl)
    | cons c s =>
      rw [List.cons_append, List.cons.injEq] at hr
      exact (hs c List.mem_cons_self).1 hr.1

theorem read_longBasic (hrest : rest.head? ≠ some '"') (s : List Char) :
    read (write s .longBasic ++ rest) = some (s, rest) := by
  have hskip : skipLineEnd (opening s ++ (escapeAll true 2 0 s ++ ending '"' rest)) =
      escapeAll true 2 0 s ++ ending '"' rest := by
    refine skipLineEnd_opening fun hline c hc => ?_
    cases s with
    | nil =>
      cases hc
      decide
    | cons d s =>
      rw [escapeAll] at hc
      by_cases hd : d = '"'
      · rw [if_pos hd, if_pos (by decide)] at hc
        cases hc
        decide
      · obtain ⟨b, r, hb, -, hfeed, hreturn⟩ := exists_escape true hd
        rw [if_neg hd, hb] at hc
        cases hc
        exact ⟨hfeed fun heq => hline (heq ▸ List.mem_cons_self), hreturn⟩
  have hlong := readLongBasic_escapeAll hrest s (Nat.zero_le 2)
  rw [← hskip] at hlong
  simpa [write, read] using hlong

theorem read_longLiteral (hrest : rest.head? ≠ some '\'')
    (hs : ∀ c ∈ s, (c = '\n' || isOpen c) = true)
    (hrun : longestRun '\'' 0 0 s ≤ 2) : read (write s .longLiteral ++ rest) = some (s, rest) := by
  have hskip : skipLineEnd (opening s ++ (s ++ ending '\'' rest)) = s ++ ending '\'' rest := by
    refine skipLineEnd_opening fun hline c hc => ?_
    cases s with
    | nil =>
      cases hc
      decide
    | cons d s =>
      cases hc
      refine ⟨fun heq => hline (heq ▸ List.mem_cons_self), ?_⟩
      rintro rfl
      exact absurd (hs _ List.mem_cons_self) (by decide)
  have hlong := readLongLiteral_append hrest hs hrun
  rw [← hskip] at hlong
  simpa [write, read] using hlong

/-- What is no control character stands for itself or ends a line. -/
theorem open_of_not_isControl (hc : isControl c = false) : (c = '\n' || isOpen c) = true := by
  simp only [isControl, Bool.or_eq_false_iff, Bool.and_eq_false_iff, decide_eq_false_iff_not, ne_eq,
    Nat.not_lt, Decidable.not_not] at hc
  obtain ⟨(hlow | htab) | hfeed, hdelete⟩ := hc
  · simp [isOpen, hlow, hdelete]
  · simp [isOpen, htab]
  · simp [hfeed]

/-- **Every text reads back in its plainest form**, in front of whatever does not
start with a quote. -/
theorem read_render (hrest : Apart rest) (s : List Char) :
    read (render s ++ rest) = some (s, rest) := by
  have hdouble : rest.head? ≠ some '"' := fun h => (hrest '"' h).1 rfl
  have hsingle : rest.head? ≠ some '\'' := fun h => (hrest '\'' h).2 rfl
  have hopen : s.any isControl = false → ∀ c ∈ s, (c = '\n' || isOpen c) = true := fun h c hc =>
    open_of_not_isControl (Bool.eq_false_iff.mpr (List.any_eq_false.mp h c hc))
  unfold render form
  dsimp only
  split
  · exact read_basic hdouble s
  split
  · next h =>
    simp only [Bool.and_eq_true, Bool.not_eq_true', decide_eq_true_eq, List.contains_eq_mem,
      decide_eq_false_iff_not] at h
    obtain ⟨⟨hcontrols, hquotes⟩, hline⟩ := h
    refine read_literal hsingle fun c hc => ⟨fun heq => ?_, ?_⟩
    · exact notMem_of_longestRun hquotes (heq ▸ hc)
    · have hc' := hopen hcontrols c hc
      rwa [decide_eq_false fun heq : c = '\n' => hline (heq ▸ hc), Bool.false_or] at hc'
  split
  · exact read_longBasic hdouble s
  split
  · next h =>
    simp only [Bool.and_eq_true, Bool.not_eq_true', decide_eq_true_eq] at h
    exact read_longLiteral hsingle (hopen h.1) h.2
  split
  · exact read_longBasic hdouble s
  · exact read_basic hdouble s

end SealedStore.Toml.Quoted
