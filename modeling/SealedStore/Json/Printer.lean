import SealedStore.Json.Basic
/-!
# JSON texts, written

The compact form: no blanks, members in order, and in strings only the quote, the
backslash and the characters below the blank are escaped.  A literal that denotes no text
is written as a lone surrogate.
-/
namespace SealedStore.Json

/-- The ASCII bytes of a text. -/
def ascii (s : String) : Bytes := s.toList.map Char.toUInt8

/-- The decimal digits of a number. -/
def digits (n : Nat) : Bytes := (Nat.toDigits 10 n).map Char.toUInt8

/-- A half byte as a hexadecimal digit. -/
def halfByte (v : Nat) : UInt8 := (Nat.digitChar v).toUInt8

/-- How one byte of a string is written. -/
def escapeByte (b : UInt8) : Bytes :=
  if b = 34 then [92, 34]
  else if b = 92 then [92, 92]
  else if b = 8 then [92, 98]
  else if b = 9 then [92, 116]
  else if b = 10 then [92, 110]
  else if b = 12 then [92, 102]
  else if b = 13 then [92, 114]
  else if b < 32 then [92, 117, 48, 48, halfByte (b.toNat / 16), halfByte (b.toNat % 16)]
  else [b]

/-- A string literal with its quotes. -/
def renderString : Option String → Bytes
  | some s => 34 :: (Bytes.ofText s).flatMap escapeByte ++ [34]
  | none => ascii "\"\\ud800\""

/-- A number with a sign or an exponent. -/
def renderDecimal (d : Decimal) : Bytes :=
  (if d.negative then [45] else []) ++ digits d.mantissa ++ 101 ::
    ((if d.exponent < 0 then [45] else []) ++ digits d.exponent.natAbs)

mutual

/-- The compact text of a value. -/
def render : Json → Bytes
  | null => ascii "null"
  | bool true => ascii "true"
  | bool false => ascii "false"
  | natural n => digits n
  | decimal d => renderDecimal d
  | string s => renderString s
  | array [] => [91, 93]
  | array (j :: r) => 91 :: (render j ++ renderItems r)
  | object [] => [123, 125]
  | object ((k, j) :: r) => 123 :: (renderString k ++ 58 :: (render j ++ renderMembers r))

/-- The items after the first, each behind a comma, and the closing bracket. -/
def renderItems : List Json → Bytes
  | [] => [93]
  | j :: r => 44 :: (render j ++ renderItems r)

/-- The members after the first, each behind a comma, and the closing brace. -/
def renderMembers : List (Option String × Json) → Bytes
  | [] => [125]
  | (k, j) :: r => 44 :: (renderString k ++ 58 :: (render j ++ renderMembers r))

end

end SealedStore.Json
