import SealedStore.Proofs.Toml.Quoted
import SealedStore.Toml.Printer
import SealedStore.Toml.Reader

/-! # Documents read back

A document of tables is written line by line and read line by line, so it reads back because each of
its lines does (`parse?_render`): a header, an assignment, whose value may be an array over several
lines, and the blank line between two tables.  The tables have different names, and so have the
settings of a table; no line then meets an entry that is there already.

The reader counts its steps down from the length of the text.  `Reads` says what a text reads as
whenever there are more steps than characters, so a line in front adds to both.
-/
namespace SealedStore.Toml

variable {cs rest : List Char} {s name : String} {ls : List Reader.Line}

/-! ## Strings and words -/

namespace Quoted

/-- A quoted text starts with a quote. -/
theorem exists_render (s : List Char) : ∃ q r, render s = q :: r ∧ (q = '"' ∨ q = '\'') := by
  unfold render
  cases form s with
  | basic => exact ⟨_, _, rfl, .inl rfl⟩
  | literal => exact ⟨_, _, rfl, .inr rfl⟩
  | longBasic => exact ⟨_, _, rfl, .inl rfl⟩
  | longLiteral => exact ⟨_, _, rfl, .inr rfl⟩

theorem apart_cons {c : Char} (hc : c ≠ '"' ∧ c ≠ '\'') (rest : List Char) : Apart (c :: rest) := by
  rintro _ ⟨⟩
  exact hc

end Quoted

namespace Reader

theorem readPlain_render (hrest : Quoted.Apart rest) (s : String) :
    readPlain (Quoted.render s.toList ++ rest) = some (.string s, rest) := by
  have hread := Quoted.read_render hrest s.toList
  obtain ⟨q, r, hq, rfl | rfl⟩ := Quoted.exists_render s.toList <;>
  · rw [hq, List.cons_append] at hread ⊢
    simp [readPlain, hread]

theorem readValue_of_quote {q : Char} (hq : q = '"' ∨ q = '\'') (depth : Nat) (r : List Char) :
    readValue depth (q :: r) = readPlain (q :: r) := by
  cases depth with
  | zero => rfl
  | succ depth => obtain rfl | rfl := hq <;> rfl

/-- **A quoted text is a value** at any depth. -/
theorem readValue_render (hrest : Quoted.Apart rest) (depth : Nat) (s : String) :
    readValue depth (Quoted.render s.toList ++ rest) = some (.string s, rest) := by
  rw [← readPlain_render hrest s]
  obtain ⟨q, r, hq, hquote⟩ := Quoted.exists_render s.toList
  rw [hq]
  exact readValue_of_quote hquote depth _

theorem readValue_flag (depth : Nat) (b : Bool) (rest : List Char) :
    readValue (depth + 1) (Printer.setting (.flag b) ++ '\n' :: rest) =
      some (.boolean b, '\n' :: rest) := by
  cases b <;> rfl

/-! ## Arrays -/

theorem skipLines_quote {q : Char} (hq : q = '"' ∨ q = '\'') (r : List Char) :
    skipLines false (q :: r) = q :: r := by
  obtain rfl | rfl := hq <;> simp [skipLines, isSpace]

theorem skipLines_render (s : String) (rest : List Char) :
    skipLines false (Quoted.render s.toList ++ rest) = Quoted.render s.toList ++ rest := by
  obtain ⟨q, r, hq, hquote⟩ := Quoted.exists_render s.toList
  rw [hq]
  exact skipLines_quote hquote _

/-- One item, and what the text behind it says about further ones. -/
theorem readItems_render (h : skipLines false cs = Quoted.render s.toList ++ rest)
    (hrest : Quoted.Apart rest) (depth n : Nat) :
    readItems (readValue depth) (n + 1) cs =
      match skipLines false rest with
      | ',' :: r => (readItems (readValue depth) n r).map fun (vs, r) => (.string s :: vs, r)
      | ']' :: r => some ([.string s], r)
      | _ => none := by
  have hvalue := readValue_render hrest depth s
  obtain ⟨q, r, hq, rfl | rfl⟩ := Quoted.exists_render s.toList <;>
  · rw [hq, List.cons_append] at h hvalue
    rw [readItems, h]
    change (readValue depth _).bind _ = _
    rw [hvalue]
    rfl

/-- An item of an array over several lines. -/
def itemLine (s : String) : List Char := "    ".toList ++ Quoted.render s.toList ++ ",\n".toList

theorem skipLines_itemLine (s : String) (rest : List Char) :
    skipLines false ('\n' :: (itemLine s ++ rest)) = Quoted.render s.toList ++ ',' ::
      '\n' :: rest := by
  rw [← skipLines_render]
  simp [itemLine, skipLines, isSpace]

theorem readItems_itemLines (depth : Nat) (items : List String) (rest : List Char) {n : Nat}
    (hn : items.length < n) :
    readItems (readValue depth) n ('\n' :: (items.flatMap itemLine ++ ']' :: rest)) =
      some (items.map .string, rest) := by
  induction items generalizing n with
  | nil =>
    obtain ⟨n, rfl⟩ := Nat.exists_eq_add_one.mpr hn
    simp [readItems, skipLines, isSpace]
  | cons s items ih =>
    obtain ⟨n, rfl⟩ := Nat.exists_eq_add_one.mpr (Nat.zero_lt_of_lt hn)
    rw [List.flatMap_cons, List.append_assoc,
      readItems_render (skipLines_itemLine s _) (Quoted.apart_cons (by decide) _)]
    simp [skipLines, isSpace, ih (Nat.lt_of_succ_lt_succ hn)]

theorem readValue_bracket (depth : Nat) (cs : List Char) :
    readValue (depth + 1) ('[' :: cs) =
      (readItems (readValue depth) (cs.length + 1) cs).map fun (vs, r) => (.array vs, r) := rfl

theorem length_le_itemLines (items : List String) :
    items.length ≤ (items.flatMap itemLine).length := by
  induction items with
  | nil => exact Nat.le_refl 0
  | cons s items ih =>
    have hline : 0 < (itemLine s).length := by simp [itemLine]
    rw [List.flatMap_cons, List.length_cons, List.length_append]
    omega

/-- **Every setting is read back** at the end of its line. -/
theorem readValue_setting (depth : Nat) (v : Setting) (rest : List Char) :
    readValue (depth + 1) (Printer.setting v ++ '\n' :: rest) = some (v.toValue, '\n' :: rest) := by
  match v with
  | .text s => exact readValue_render (Quoted.apart_cons (by decide) rest) (depth + 1) s
  | .flag b => exact readValue_flag depth b rest
  | .texts [] => rfl
  | .texts [s] =>
    have hbracket : Quoted.Apart (']' :: '\n' :: rest) := Quoted.apart_cons (by decide) _
    have hitem := readItems_render (skipLines_render s _) hbracket depth
    rw [Printer.setting, List.append_assoc, List.cons_append, readValue_bracket]
    simp only [List.singleton_append]
    rw [hitem]
    rfl
  | .texts (s :: t :: items) =>
    have hlength := length_le_itemLines (s :: t :: items)
    have hsetting : Printer.setting (.texts (s :: t :: items)) =
        '[' :: '\n' :: ((s :: t :: items).flatMap itemLine ++ [']']) := rfl
    rw [hsetting, List.cons_append, readValue_bracket, List.cons_append, List.append_assoc,
      List.singleton_append, readItems_itemLines]
    · rfl
    · simp only [List.length_cons, List.length_append] at hlength ⊢
      omega

/-! ## Names -/

/-- A name that is written without quotes. -/
def IsBareName (name : String) : Prop := name ≠ "" ∧ ∀ c ∈ name.toList, isBare c = true

instance (name : String) : Decidable (IsBareName name) :=
  -- the characters of the name are gone through, not all characters
  haveI := List.decidableBAll (fun c => isBare c = true) name.toList
  inferInstanceAs (Decidable (_ ∧ _))

theorem ne_of_isBare {b c : Char} (hb : isBare b = true) (hc : isBare c = false) : b ≠ c := by
  rintro rfl
  exact absurd hb (by simp [hc])

/-- The first character of a bare name. -/
theorem IsBareName.exists_cons (hname : IsBareName name) :
    ∃ b r, name.toList = b :: r ∧ isBare b = true := by
  have hnil : name.toList ≠ [] := by simpa using hname.1
  obtain ⟨b, r, hb⟩ := List.exists_cons_of_ne_nil hnil
  exact ⟨b, r, hb, hname.2 b (hb ▸ List.mem_cons_self)⟩

theorem skipSpaces_bare (hname : IsBareName name) (rest : List Char) :
    skipSpaces (name.toList ++ rest) = name.toList ++ rest := by
  obtain ⟨b, r, hb, hbare⟩ := hname.exists_cons
  have hspace : b ≠ ' ' := ne_of_isBare hbare (by decide)
  have htab : b ≠ '\t' := ne_of_isBare hbare (by decide)
  rw [hb, List.cons_append, skipSpaces, List.dropWhile_cons_of_neg]
  simp [isSpace, hspace, htab]

/-- A bare name is read up to the first character that may not stand in it. -/
theorem readName_bare (hname : IsBareName name) {c : Char} (hc : isBare c = false)
    (rest : List Char) :
    readName (name.toList ++ c :: rest) = some (name, c :: rest) := by
  have htake : (name.toList ++ c :: rest).takeWhile isBare = name.toList := by
    rw [List.takeWhile_append_of_pos hname.2, List.takeWhile_cons_of_neg (by simp [hc]),
      List.append_nil]
  have hdrop : (name.toList ++ c :: rest).dropWhile isBare = c :: rest := by
    rw [List.dropWhile_append_of_pos hname.2, List.dropWhile_cons_of_neg (by simp [hc])]
  obtain ⟨b, r, hb, hbare⟩ := hname.exists_cons
  have hdouble : b ≠ '"' := ne_of_isBare hbare (by decide)
  have hsingle : b ≠ '\'' := ne_of_isBare hbare (by decide)
  rw [hb, List.cons_append] at htake hdrop ⊢
  unfold readName
  split
  · next heq => exact absurd (List.cons.inj heq).1 hdouble
  · next heq => exact absurd (List.cons.inj heq).1 hsingle
  · simp only [htake, hdrop, reduceCtorEq, if_false]
    rw [← hb, String.ofList_toList]

/-- A bare name that no dot follows is a whole path. -/
theorem readPath_bare (hname : IsBareName name) {c d : Char} {r : List Char} (hc : isBare c = false)
    (hskip : skipSpaces (c :: rest) = d :: r) (hd : d ≠ '.') (parts : Nat) :
    readPath (parts + 1) (name.toList ++ c :: rest) = some ([], name, d :: r) := by
  rw [readPath, skipSpaces_bare hname, readName_bare hname hc]
  simp only [Option.bind_eq_bind, Option.bind_some, hskip]
  split
  · next heq => exact absurd (List.cons.inj heq).1 hd
  · rfl

/-! ## Lines -/

/-- What a text reads as in more steps than it has characters. -/
def Reads (cs : List Char) (ls : List Line) : Prop := ∀ n, cs.length < n → readLines n cs = some ls

theorem reads_nil : Reads [] [] := by
  intro n hn
  obtain ⟨n, rfl⟩ := Nat.exists_eq_add_one.mpr hn
  rfl

theorem reads_blank (h : Reads cs ls) : Reads ('\n' :: cs) ls := by
  intro n hn
  obtain ⟨n, rfl⟩ := Nat.exists_eq_add_one.mpr (Nat.zero_lt_of_lt hn)
  have hread := h n (Nat.lt_of_succ_lt_succ hn)
  rw [← hread]
  rfl

theorem readHeader_bare (hname : IsBareName name) (rest : List Char) :
    readHeader (name.toList ++ ']' :: rest) = some (⟨[], name, false⟩, rest) := by
  have hpath : readPath maxDepth (name.toList ++ ']' :: rest) = some ([], name, ']' :: rest) :=
    readPath_bare hname (by decide) rfl (by decide) _
  obtain ⟨b, r, hb, hbare⟩ := hname.exists_cons
  have hbracket : b ≠ '[' := ne_of_isBare hbare (by decide)
  rw [hb, List.cons_append] at hpath ⊢
  unfold readHeader
  split
  · next heq => exact absurd (List.cons.inj heq).1 hbracket
  · rw [hpath]
    rfl

/-- The header of a table. -/
def headerLine (name : String) : List Char := '[' :: name.toList ++ "]\n".toList

theorem reads_header (hname : IsBareName name) (h : Reads cs ls) :
    Reads (headerLine name ++ cs) (.header ⟨[], name, false⟩ :: ls) := by
  intro n hn
  obtain ⟨n, rfl⟩ := Nat.exists_eq_add_one.mpr (Nat.zero_lt_of_lt hn)
  have hline : headerLine name ++ cs = '[' :: (name.toList ++ ']' :: '\n' :: cs) := by
    simp [headerLine]
  have hread : readLines n cs = some ls := by
    refine h n ?_
    rw [hline, List.length_cons, List.length_append, List.length_cons, List.length_cons] at hn
    omega
  rw [hline]
  change (readHeader (name.toList ++ ']' :: '\n' :: cs)).bind _ = _
  rw [readHeader_bare hname, Option.bind_some]
  change (readLines n cs).bind _ = _
  rw [hread]
  rfl

/-- An assignment on a line of its own. -/
def assignmentLine (e : String × Setting) : List Char :=
  e.1.toList ++ " = ".toList ++ Printer.setting e.2 ++ ['\n']

theorem skipSpaces_setting (v : Setting) (rest : List Char) :
    skipSpaces (Printer.setting v ++ rest) = Printer.setting v ++ rest := by
  match v with
  | .text s =>
    obtain ⟨q, r, hq, hquote⟩ := Quoted.exists_render s.toList
    rw [Printer.setting, hq]
    obtain rfl | rfl := hquote <;> rfl
  | .flag true => rfl
  | .flag false => rfl
  | .texts [] => rfl
  | .texts [_] => rfl
  | .texts (_ :: _ :: _) => rfl

theorem readAssignment_bare (hname : IsBareName name) (depth : Nat) (v : Setting)
    (rest : List Char) :
    readAssignment (readValue (depth + 1))
        (name.toList ++ ' ' :: '=' :: ' ' :: (Printer.setting v ++ '\n' :: rest)) =
      some (⟨[], name, v.toValue⟩, '\n' :: rest) := by
  have hskip : skipSpaces (' ' :: (Printer.setting v ++ '\n' :: rest)) =
      Printer.setting v ++ '\n' :: rest :=
    skipSpaces_setting v _
  have hpath := readPath_bare hname (by decide)
    (show skipSpaces (' ' :: '=' :: ' ' :: (Printer.setting v ++ '\n' :: rest)) = '=' :: _ from rfl)
    (by decide) 78
  rw [readAssignment, maxDepth, hpath]
  change
    (readValue (depth + 1) (skipSpaces (' ' :: (Printer.setting v ++ '\n' :: rest)))).bind _ = _
  rw [hskip, readValue_setting]
  rfl

theorem reads_assignment {e : String × Setting} (hname : IsBareName e.1) (h : Reads cs ls) :
    Reads (assignmentLine e ++ cs) (.assignment ⟨[], e.1, e.2.toValue⟩ :: ls) := by
  intro n hn
  obtain ⟨n, rfl⟩ := Nat.exists_eq_add_one.mpr (Nat.zero_lt_of_lt hn)
  have hline : assignmentLine e ++ cs =
      e.1.toList ++ ' ' :: '=' :: ' ' :: (Printer.setting e.2 ++ '\n' :: cs) := by
    simp [assignmentLine]
  have hread : readLines n cs = some ls := by
    refine h n ?_
    rw [hline] at hn
    simp only [List.length_append, List.length_cons] at hn
    omega
  have hassignment := readAssignment_bare hname 78 e.2 cs
  have hspaces := skipSpaces_bare hname (' ' :: '=' :: ' ' :: (Printer.setting e.2 ++ '\n' :: cs))
  obtain ⟨b, r, hb, hbare⟩ := hname.exists_cons
  have hbracket : b ≠ '[' := ne_of_isBare hbare (by decide)
  have hcomment : b ≠ '#' := ne_of_isBare hbare (by decide)
  have hfeed : b ≠ '\n' := ne_of_isBare hbare (by decide)
  have hreturn : b ≠ '\r' := ne_of_isBare hbare (by decide)
  rw [hline]
  rw [hb, List.cons_append] at hassignment hspaces ⊢
  unfold readLines
  rw [hspaces]
  split
  · next heq => cases heq
  · next heq => exact absurd (List.cons.inj heq).1 hbracket
  · next heq =>
    obtain ⟨rfl, rfl⟩ := List.cons.inj heq
    rw [if_neg (by simp [hcomment, hfeed, hreturn])]
    change (readAssignment (readValue maxDepth) _).bind _ = _
    rw [maxDepth, hassignment, Option.bind_some]
    change (readLines n cs).bind _ = _
    rw [hread]
    rfl

theorem reads_settings {settings : List (String × Setting)}
    (hnames : ∀ e ∈ settings, IsBareName e.1) (h : Reads cs ls) :
    Reads (settings.flatMap assignmentLine ++ cs)
      (settings.map (fun e => .assignment ⟨[], e.1, e.2.toValue⟩) ++ ls) := by
  induction settings with
  | nil => exact h
  | cons e settings ih =>
    have hsettings := ih fun a ha => hnames a (List.mem_cons_of_mem e ha)
    rw [List.flatMap_cons, List.append_assoc]
    exact reads_assignment (hnames e List.mem_cons_self) hsettings

end Reader

/-! ## Documents -/

/-- A document whose tables and settings have names without quotes, and no
two of a kind the same. -/
structure Plain (sections : List Section) : Prop where
  names : ∀ s ∈ sections, Reader.IsBareName s.name
  distinct : (sections.map Section.name).Nodup
  settingNames : ∀ s ∈ sections, ∀ e ∈ s.settings, Reader.IsBareName e.1
  settingsDistinct : ∀ s ∈ sections, (s.settings.map Prod.fst).Nodup

namespace Section

/-- The assignments of a table. -/
def assignments (s : Section) : List Children.Assignment :=
  s.settings.map fun e => ⟨[], e.1, e.2.toValue⟩

/-- The lines of a table. -/
def lines (s : Section) : List Reader.Line :=
  .header ⟨[], s.name, false⟩ :: s.assignments.map .assignment

/-- The table that grows from a table's lines. -/
def children (s : Section) : Children := s.settings.map fun e => (e.1, .leaf e.2.toValue)

end Section

namespace Reader

theorem reads_block {s : Section} (hname : IsBareName s.name)
    (hsettings : ∀ e ∈ s.settings, IsBareName e.1)
    (h : Reads cs ls) : Reads (Printer.block s ++ cs) (s.lines ++ ls) := by
  have hblock : Printer.block s ++ cs = headerLine s.name ++
      (s.settings.flatMap assignmentLine ++ cs) := by
    rw [← List.append_assoc]
    rfl
  have hlines : s.lines ++ ls = .header ⟨[], s.name, false⟩ ::
      (s.settings.map (fun e => .assignment ⟨[], e.1, e.2.toValue⟩) ++ ls) := by
    simp [Section.lines, Section.assignments]
  rw [hblock, hlines]
  exact reads_header hname (reads_settings hsettings h)

theorem reads_blocks {sections : List Section} (hnames : ∀ s ∈ sections, IsBareName s.name)
    (hsettings : ∀ s ∈ sections, ∀ e ∈ s.settings, IsBareName e.1) :
    Reads (List.intercalate ['\n'] (sections.map Printer.block))
      (sections.flatMap Section.lines) := by
  induction sections with
  | nil => exact reads_nil
  | cons s sections ih =>
    have hrest := ih (fun a ha => hnames a (List.mem_cons_of_mem s ha))
      fun a ha => hsettings a (List.mem_cons_of_mem s ha)
    have hblock : ∀ {cs ls}, Reads cs ls → Reads (Printer.block s ++ cs) (s.lines ++ ls) :=
      reads_block (hnames s List.mem_cons_self) (hsettings s List.mem_cons_self)
    cases sections with
    | nil => simpa using hblock reads_nil
    | cons t sections =>
      have hblank := hblock (reads_blank hrest)
      simpa [List.intercalate] using hblank

theorem group_assignments (as : List Children.Assignment) (ls : List Line) :
    group (as.map .assignment ++ ls) = (as ++ (group ls).1, (group ls).2) := by
  induction as with
  | nil => rfl
  | cons a as ih => simp [group, ih]

theorem group_lines (sections : List Section) :
    group (sections.flatMap Section.lines) =
      ([], sections.map fun s => (⟨[], s.name, false⟩, s.assignments)) := by
  induction sections with
  | nil => rfl
  | cons s sections ih =>
    rw [List.flatMap_cons, Section.lines, List.cons_append, group, group_assignments, ih]
    simp

end Reader

/-! ## Tables -/

namespace Children

variable {t : Children} {n : Node}

theorem find?_eq_none (h : name ∉ t.map Prod.fst) : t.find? name = none := by
  rw [find?, Option.map_eq_none_iff, List.find?_eq_none]
  intro e he heq
  exact h (List.mem_map.mpr ⟨e, he, by simpa using heq⟩)

theorem put_of_notMem (h : name ∉ t.map Prod.fst) (n : Node) : put name n t = t ++ [(name, n)] := by
  induction t with
  | nil => rfl
  | cons e t ih =>
    rw [List.map_cons, List.mem_cons, not_or] at h
    rw [put, if_neg (Ne.symm h.1), ih h.2, List.cons_append]

theorem assign_of_notMem (h : name ∉ t.map Prod.fst) (v : Value) :
    t.assign [] name v = some (t ++ [(name, .leaf v)]) := by
  simp [assign, change, find?_eq_none h, put_of_notMem h]

/-- The names in front of new ones, and a table with the first of them, do not have the rest. -/
theorem names_append {a : String} {names : List String} (n : Node)
    (h : (t.map Prod.fst ++ a :: names).Nodup) :
    a ∉ t.map Prod.fst ∧ ((t ++ [(a, n)]).map Prod.fst ++ names).Nodup := by
  refine ⟨fun ha => ?_, ?_⟩
  · exact (List.nodup_append.mp h).2.2 a ha a List.mem_cons_self rfl
  · simpa using h

theorem assignAll_settings {settings : List (String × Setting)}
    (h : (t.map Prod.fst ++ settings.map Prod.fst).Nodup) :
    assignAll t (settings.map fun e => ⟨[], e.1, e.2.toValue⟩) =
      some (t ++ settings.map fun e => (e.1, .leaf e.2.toValue)) := by
  induction settings generalizing t with
  | nil => simp [assignAll]
  | cons e settings ih =>
    obtain ⟨hfresh, hrest⟩ := names_append (.leaf e.2.toValue) h
    have hall := ih hrest
    rw [assignAll] at hall ⊢
    rw [List.map_cons, List.foldlM_cons, assign_of_notMem hfresh, Option.bind_eq_bind,
      Option.bind_some, hall, List.map_cons, List.append_assoc, List.singleton_append]

theorem extend_section {s : Section} (hsettings : (s.settings.map Prod.fst).Nodup)
    (h : s.name ∉ t.map Prod.fst) :
    t.extend ⟨[], s.name, false⟩ s.assignments =
      some (t ++ [(s.name, .branch .header s.children)]) := by
  have hall : assignAll [] s.assignments = some s.children := assignAll_settings hsettings
  simp [extend, change, find?_eq_none h, hall, put_of_notMem h]

theorem extend_sections {sections : List Section}
    (hsettings : ∀ s ∈ sections, (s.settings.map Prod.fst).Nodup)
    (h : (t.map Prod.fst ++ sections.map Section.name).Nodup) :
    (sections.map fun s => (⟨[], s.name, false⟩, s.assignments)).foldlM
      (fun t g => extend t g.1 g.2) t =
      some (t ++ sections.map fun s => (s.name, .branch .header s.children)) := by
  induction sections generalizing t with
  | nil => simp
  | cons s sections ih =>
    obtain ⟨hfresh, hrest⟩ := names_append (.branch .header s.children) h
    rw [List.map_cons, List.foldlM_cons, extend_section (hsettings s List.mem_cons_self) hfresh,
      Option.bind_eq_bind, Option.bind_some,
      ih (fun a ha => hsettings a (List.mem_cons_of_mem s ha)) hrest, List.map_cons,
      List.append_assoc, List.singleton_append]

end Children

theorem Node.entries_map {α : Type} (name : α → String) (node : α → Node) (as : List α) :
    Node.entries (as.map fun a => (name a, node a)) = as.map fun a =>
      (name a, (node a).toValue) := by
  induction as with
  | nil => rfl
  | cons a as ih => rw [List.map_cons, Node.entries, ih, List.map_cons]

theorem Section.toValue_children (s : Section) :
    (Node.branch .header s.children).toValue =
      .table (s.settings.map fun e => (e.1, e.2.toValue)) := by
  rw [Node.toValue, Section.children, Node.entries_map]
  rfl

/-- The text of a document starts with a bracket, which is no byte order mark. -/
theorem skipMark_render (sections : List Section) :
    Reader.skipMark (List.intercalate ['\n'] (sections.map Printer.block)) =
      List.intercalate ['\n'] (sections.map Printer.block) := by
  match sections with
  | [] => rfl
  | [s] => rfl
  | s :: t :: sections => rfl

/-- **A document reads back** as the tables that it was written of. -/
theorem parse?_render {sections : List Section} (h : Plain sections) :
    parse? (render sections) = some (ofSections sections) := by
  have hread := Reader.reads_blocks h.names h.settingNames _ (Nat.lt_succ_self _)
  have hroot := Children.extend_sections (t := []) h.settingsDistinct h.distinct
  have hvalue : Node.entries (sections.map fun s => (s.name, .branch .header s.children)) =
      sections.map fun s => (s.name, .table (s.settings.map fun e => (e.1, e.2.toValue))) := by
    rw [Node.entries_map]
    exact List.map_congr_left fun s _ => by rw [Section.toValue_children]
  rw [parse?, render, String.toList_ofList, skipMark_render]
  simp [hread, Reader.group_lines, Children.assignAll, hroot, hvalue, ofSections]

end SealedStore.Toml
