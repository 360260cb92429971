import SealedStore.Json.Printer
import SealedStore.Json.Token

/-! # Literals read back

Numbers and strings, the two kinds of token that carry data, are read back as they were written.  A
number ends where no byte continues it, so its text reads back in front of anything that
`EndsNumber`; a string brings its own end.
-/
namespace SealedStore.Json

/-- What may follow a number: nothing, or a byte that does not continue it. -/
def EndsNumber (b : Bytes) : Prop :=
  ∀ c r, b = c :: r → isDigit c = false ∧ c ≠ 46 ∧ c ≠ 101 ∧ c ≠ 69

theorem endsNumber_nil : EndsNumber [] := by
  intro c r h
  cases h

theorem endsNumber_cons {c : UInt8} {r : Bytes}
    (h : isDigit c = false ∧ c ≠ 46 ∧ c ≠ 101 ∧ c ≠ 69) : EndsNumber (c :: r) := by
  intro c' r' he
  cases he
  exact h

/-! ## Numbers -/

/-- The byte of a digit. -/
def digitByte (v : Nat) : UInt8 := (Nat.digitChar v).toUInt8

theorem toNat_digitByte : ∀ v < 10, (digitByte v).toNat = 48 + v := by decide

theorem isDigit_digitByte : ∀ v < 10, isDigit (digitByte v) = true := by decide

theorem digits_of_lt {n : Nat} (h : n < 10) : digits n = [digitByte n] := by
  rw [digits, Nat.toDigits_of_lt_base h]
  rfl

theorem digits_append {n d : Nat} (hn : 0 < n) (hd : d < 10) :
    digits (10 * n + d) = digits n ++ [digitByte d] := by
  rw [digits, ← Nat.toDigits_append_toDigits (by decide) hn hd, List.map_append,
    Nat.toDigits_of_lt_base hd]
  rfl

theorem digits_ne_nil (n : Nat) : digits n ≠ [] := by simp [digits]

theorem isDigit_of_mem_digits {n : Nat} : ∀ c ∈ digits n, isDigit c = true := by
  induction n using Nat.base_induction 10 (by decide) with
  | single d hd =>
    intro c hc
    rw [digits_of_lt hd, List.mem_singleton] at hc
    exact hc ▸ isDigit_digitByte d hd
  | digit n d hd hn ih =>
    intro c hc
    rw [digits_append hn hd, List.mem_append, List.mem_singleton] at hc
    rcases hc with hc | rfl
    · exact ih c hc
    · exact isDigit_digitByte d hd

@[simp] theorem number_digits (n : Nat) : number (digits n) = n := by
  induction n using Nat.base_induction 10 (by decide) with
  | single d hd =>
    rw [digits_of_lt hd]
    simp [number, toNat_digitByte d hd]
  | digit n d hd hn ih =>
    rw [digits_append hn hd, number, List.foldl_append]
    rw [number] at ih
    simp only [List.foldl_cons, List.foldl_nil, ih, toNat_digitByte d hd]
    omega

/-- No number but zero starts with a zero. -/
theorem head?_digits {n : Nat} (h : 0 < n) : (digits n).head? ≠ some 48 := by
  induction n using Nat.base_induction 10 (by decide) with
  | single d hd =>
    rw [digits_of_lt hd, List.head?_cons]
    intro he
    have := congrArg UInt8.toNat (Option.some.inj he)
    rw [toNat_digitByte d hd] at this
    have : (48 : UInt8).toNat = 48 := rfl
    omega
  | digit n d hd hn ih =>
    rw [digits_append hn hd, List.head?_append, Option.or_of_isSome]
    · exact ih hn
    · exact List.isSome_head?.mpr (digits_ne_nil n)

theorem takeWhile_digits (n : Nat) {r : Bytes} (hr : EndsNumber r) :
    (digits n ++ r).takeWhile isDigit = digits n := by
  rw [List.takeWhile_append_of_pos isDigit_of_mem_digits]
  cases r with
  | nil => simp
  | cons c r => simp [(hr c r rfl).1]

theorem dropWhile_digits (n : Nat) {r : Bytes} (hr : EndsNumber r) :
    (digits n ++ r).dropWhile isDigit = r := by
  rw [List.dropWhile_append_of_pos isDigit_of_mem_digits]
  cases r with
  | nil => rfl
  | cons c r => simp [(hr c r rfl).1]

theorem readWhole_digits (n : Nat) {r : Bytes} (hr : EndsNumber r) :
    readWhole (digits n ++ r) = some (digits n, r) := by
  have hz : ¬((digits n).head? = some 48 ∧ (digits n).length ≠ 1) := by
    rintro ⟨hh, hl⟩
    cases n with
    | zero => exact hl rfl
    | succ n => exact head?_digits (Nat.succ_pos n) hh
  simp [readWhole, readDigits, takeWhile_digits n hr, dropWhile_digits n hr, digits_ne_nil, hz]

theorem readFraction_of_ends {r : Bytes} (hr : EndsNumber r) : readFraction r = some ([], r) := by
  cases r with
  | nil => rfl
  | cons c r =>
    unfold readFraction
    split
    · next h => exact absurd (List.cons.inj h).1 (hr c r rfl).2.1
    · rfl

theorem readExponent_of_ends {r : Bytes} (hr : EndsNumber r) : readExponent r = some (none, r) := by
  cases r with
  | nil => rfl
  | cons c r =>
    obtain ⟨-, -, h1, h2⟩ := hr c r rfl
    simp [readExponent, h1, h2]

theorem readNumber_digits (n : Nat) {r : Bytes} (hr : EndsNumber r) :
    readNumber (digits n ++ r) = some (natural n, r) := by
  have hminus : ∀ t, digits n ++ r ≠ 45 :: t := by
    intro t he
    cases hd : digits n with
    | nil => exact digits_ne_nil n hd
    | cons c ds =>
      rw [hd, List.cons_append] at he
      have hc := isDigit_of_mem_digits (n := n) c (by rw [hd]; exact List.mem_cons_self ..)
      rw [(List.cons.inj he).1] at hc
      exact absurd hc (by decide)
  unfold readNumber
  split
  rename_i negative b hb
  split at hb
  · next t he => exact absurd he (hminus t)
  · cases hb
    simp [readWhole_digits n hr, readFraction_of_ends hr, readExponent_of_ends hr]

/-! ## Strings -/

/-- The piece as which a byte of a string is read: a control character without a letter of its own
is written as a unit, any other byte as itself. -/
def pieceOf (b : UInt8) : Piece :=
  if b < 32 ∧ b ≠ 8 ∧ b ≠ 9 ∧ b ≠ 10 ∧ b ≠ 12 ∧ b ≠ 13 then .unit b.toNat else .byte b

/-- The escape of a control character denotes it. -/
theorem unit?_halfBytes :
    ∀ v < 32, unit? 48 48 (halfByte (v / 16)) (halfByte (v % 16)) = some v := by decide

theorem scanString_quote (r : Bytes) : scanString (34 :: r) = some ([], r) := by
  rw [scanString.eq_def]
  rfl

theorem scanString_letter {e b : UInt8} (he : e ≠ 117) (hb : escaped? e = some b) (r : Bytes) :
    scanString (92 :: e :: r) = (scanString r).map fun p => (.byte b :: p.1, p.2) := by
  rw [scanString.eq_def]
  simp only [show (92 : UInt8) ≠ 34 by decide, reduceIte, he, hb]
  cases scanString r <;> rfl

theorem scanString_control {b : UInt8} (hb : b < 32) (r : Bytes) :
    scanString (92 :: 117 :: 48 :: 48 :: halfByte (b.toNat / 16) :: halfByte (b.toNat % 16) :: r) =
      (scanString r).map fun p => (.unit b.toNat :: p.1, p.2) := by
  rw [scanString.eq_def]
  simp only [show (92 : UInt8) ≠ 34 by decide, reduceIte,
    unit?_halfBytes b.toNat (UInt8.lt_iff_toNat_lt.mp hb)]
  cases scanString r <;> rfl

theorem scanString_plain {b : UInt8} (h1 : b ≠ 34) (h2 : b ≠ 92) (h3 : ¬b < 32) (r : Bytes) :
    scanString (b :: r) = (scanString r).map fun p => (.byte b :: p.1, p.2) := by
  rw [scanString.eq_def]
  simp only [h1, h2, h3, reduceIte]
  cases scanString r <;> rfl

theorem scanString_escapeByte (b : UInt8) (r : Bytes) :
    scanString (escapeByte b ++ r) = (scanString r).map fun p => (pieceOf b :: p.1, p.2) := by
  unfold escapeByte
  -- the seven bytes with a letter of their own
  iterate 7
    split
    · subst b
      exact scanString_letter (by decide) rfl r
  split
  · next h1 h2 h3 h4 h5 h6 h7 hlt =>
    rw [pieceOf, if_pos ⟨hlt, h3, h4, h5, h6, h7⟩]
    exact scanString_control hlt r
  · next h1 h2 h3 h4 h5 h6 h7 hlt =>
    rw [pieceOf, if_neg fun h => hlt h.1]
    exact scanString_plain h1 h2 hlt r

theorem scanString_escaped (b r : Bytes) :
    scanString (b.flatMap escapeByte ++ 34 :: r) = some (b.map pieceOf, r) := by
  induction b with
  | nil => exact scanString_quote r
  | cons c b ih => simp [List.flatMap_cons, scanString_escapeByte, ih]

/-- A unit below the surrogates denotes itself, whatever follows. -/
theorem joinPieces_unit {u : Nat} (hu : u < 0xD800) (ps : List Piece) :
    joinPieces (.unit u :: ps) = (joinPieces ps).map
      (String.utf8EncodeChar (Char.ofNat u) ++ ·) := by
  have h1 : ¬(0xD800 ≤ u ∧ u < 0xDC00) := by omega
  have h2 : ¬(0xDC00 ≤ u ∧ u < 0xE000) := by omega
  have h3 : ¬(0xD800 ≤ u ∧ u < 0xE000) := by omega
  cases ps with
  | nil => simp [joinPieces, h3]
  | cons p ps =>
    cases p with
    | byte b => simp [joinPieces, h3]
    | unit v => rw [joinPieces, if_neg h1, if_neg h2]

/-- A control character is its own UTF-8 form. -/
theorem utf8EncodeChar_control :
    ∀ v < 32, String.utf8EncodeChar (Char.ofNat v) = [UInt8.ofNat v] := by decide

theorem joinPieces_pieceOf (b : Bytes) : joinPieces (b.map pieceOf) = some b := by
  induction b with
  | nil => rfl
  | cons c b ih =>
    rw [List.map_cons, pieceOf]
    split
    · next h =>
      have hc : c.toNat < 32 := UInt8.lt_iff_toNat_lt.mp h.1
      rw [joinPieces_unit (by omega), ih, utf8EncodeChar_control c.toNat hc, UInt8.ofNat_toNat]
      rfl
    · rw [joinPieces, ih]
      rfl

/-- A string reads back behind its opening quote. -/
theorem readString_renderString (s : String) (r : Bytes) :
    ∃ t, renderString (some s) ++ r = 34 :: t ∧ readString t = some (some s, r) := by
  refine ⟨(Bytes.ofText s).flatMap escapeByte ++ 34 :: r, by simp [renderString], ?_⟩
  simp [readString, scanString_escaped, joinPieces_pieceOf]

end SealedStore.Json
