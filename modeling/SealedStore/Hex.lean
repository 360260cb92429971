import SealedStore.Octets
/-!
# Hexadecimal text

Bytes are written as two lower-case digits each, usually behind `0x`.  Reading takes either case and
an optional `0x` or `0X`, and says why a text is not hexadecimal: an odd number of digits is
reported before a character that is no digit, and a character is shown as the first byte of its
UTF-8 form.  Main statement: what is written reads back (`bytes?_text`).
-/
namespace SealedStore.Hex

/-- Why a text is not hexadecimal. -/
inductive Error where
  | oddLength
  | invalidCharacter (byte : UInt8) (position : Nat)
deriving DecidableEq, Repr

/-- The digit of a value below sixteen. -/
def digit (v : Nat) : Char := Nat.digitChar v

/-- The value of a digit, in either case. -/
def digitValue? (c : Char) : Option Nat :=
  if '0' ≤ c ∧ c ≤ '9' then some (c.toNat - 48)
  else if 'a' ≤ c ∧ c ≤ 'f' then some (c.toNat - 87)
  else if 'A' ≤ c ∧ c ≤ 'F' then some (c.toNat - 55)
  else none

theorem digitValue?_digit : ∀ v < 16, digitValue? (digit v) = some v := by decide

/-- Two digits for each byte, high half first. -/
def digits (b : Bytes) : List Char :=
  b.flatMap fun d => [digit (d.toNat / 16), digit (d.toNat % 16)]

/-- The digits alone. -/
def plain (b : Bytes) : String := String.ofList (digits b)

/-- The digits behind `0x`. -/
def text (b : Bytes) : String := String.ofList ('0' :: 'x' :: digits b)

/-- The text without its `0x` or `0X`. -/
def stripMark : List Char → List Char
  | '0' :: 'x' :: r => r
  | '0' :: 'X' :: r => r
  | r => r

/-- Two halves make a byte. -/
def join : List Nat → Bytes
  | h :: l :: r => UInt8.ofNat (h * 16 + l) :: join r
  | _ => []

/-- The bytes that a run of digits stands for. -/
def readDigits (cs : List Char) : Except Error Bytes :=
  if (cs.map Char.utf8Size).foldr (· + ·) 0 % 2 = 1 then .error .oddLength
  else match cs.findIdx? (fun c => (digitValue? c).isNone) with
    | some i => .error (.invalidCharacter ((String.utf8EncodeChar (cs.getD i ' ')).headD 0) i)
    | none => .ok (join (cs.filterMap digitValue?))

/-- The bytes of a hexadecimal text, with or without its mark. -/
def read (s : String) : Except Error Bytes := readDigits (stripMark s.toList)

/-- The bytes of a hexadecimal text, if it is one. -/
def bytes? (s : String) : Option Bytes := (read s).toOption

/-- Exactly `n` bytes of a hexadecimal text. -/
def octets? (n : Nat) (s : String) : Option (Octets n) := (bytes? s).bind Octets.ofBytes?

/-! ## What is written reads back -/

theorem filterMap_digits (b : Bytes) :
    (digits b).filterMap digitValue? = b.flatMap fun d => [d.toNat / 16, d.toNat % 16] := by
  induction b with
  | nil => rfl
  | cons d r ih =>
    have hd : d.toNat < 256 := d.toNat_lt
    have h1 := digitValue?_digit (d.toNat / 16) (by omega)
    have h2 := digitValue?_digit (d.toNat % 16) (by omega)
    simp only [digits, List.flatMap_cons, List.cons_append, List.nil_append] at ih ⊢
    simp [h1, h2, ih]

theorem join_halves (b : Bytes) : join (b.flatMap fun d => [d.toNat / 16, d.toNat % 16]) = b := by
  induction b with
  | nil => rfl
  | cons d r ih =>
    have : d.toNat / 16 * 16 + d.toNat % 16 = d.toNat := by omega
    simp [join, ih, this]

theorem digitValue?_of_mem_digits {b : Bytes} {c : Char} (h : c ∈ digits b) :
    (digitValue? c).isSome := by
  simp only [digits, List.mem_flatMap, List.mem_cons, List.not_mem_nil, or_false] at h
  obtain ⟨d, -, h⟩ := h
  have hd : d.toNat < 256 := d.toNat_lt
  rcases h with rfl | rfl <;> rw [digitValue?_digit _ (by omega)] <;> rfl

theorem utf8Size_of_digitValue? {c : Char} (h : (digitValue? c).isSome) : c.utf8Size = 1 := by
  have hc : c.toNat ≤ 127 := by
    unfold digitValue? at h
    simp only [Char.le_def, UInt32.le_iff_toNat_le] at h
    have e : ∀ d : Char, d.val.toNat = d.toNat := fun _ => rfl
    simp only [e] at h
    have f : Char.toNat '9' = 57 := rfl
    have g : Char.toNat 'f' = 102 := rfl
    have i : Char.toNat 'F' = 70 := rfl
    split at h
    · omega
    · split at h
      · omega
      · split at h
        · omega
        · simp at h
  unfold Char.utf8Size
  have : c.val ≤ 0x7f := by
    rw [UInt32.le_iff_toNat_le]; exact hc
  simp [this]

theorem length_digits (b : Bytes) : (digits b).length = 2 * b.length := by
  induction b with
  | nil => rfl
  | cons d r ih =>
    simp only [digits, List.flatMap_cons, List.length_append, List.length_cons,
      List.length_nil] at ih ⊢
    omega

theorem readDigits_digits (b : Bytes) : readDigits (digits b) = .ok b := by
  have size : ((digits b).map Char.utf8Size).foldr (· + ·) 0 = 2 * b.length := by
    have h : (digits b).map Char.utf8Size = (digits b).map fun _ => 1 :=
      List.map_congr_left fun c hc => utf8Size_of_digitValue? (digitValue?_of_mem_digits hc)
    rw [h, List.map_const', length_digits]
    exact List.sum_replicate_nat.trans (Nat.mul_one _)
  have all : (digits b).findIdx? (fun c => (digitValue? c).isNone) = none := by
    rw [List.findIdx?_eq_none_iff]
    intro c hc
    have := digitValue?_of_mem_digits hc
    cases h : digitValue? c <;> simp_all
  unfold readDigits
  rw [size, all, if_neg (by omega), filterMap_digits, join_halves]

@[simp] theorem bytes?_text (b : Bytes) : bytes? (text b) = some b := by
  simp [bytes?, read, text, stripMark, readDigits_digits, Except.toOption]

/-- The digits themselves carry no mark, so they read back as well. -/
theorem digits_injective {a b : Bytes} (h : digits a = digits b) : a = b := by
  have := congrArg readDigits h
  simpa [readDigits_digits] using this

end SealedStore.Hex
