import SealedStore.Toml.Basic
import SealedStore.Decimal
/-!
# Numbers, dates and the two truths

A value that is neither quoted nor bracketed is a word, up to the next character that may follow a
value.  A date and a time may also be two words with one space between them.
-/
namespace SealedStore.Toml.Scalar

/-- Whether a character may follow a value. -/
def isBreak (c : Char) : Bool := [' ', '\t', '\n', '\r', '#', ',', ']', '}'].contains c

/-! ## Numbers -/

/-- The digits of a row in which single underscores may stand between digits. -/
def grouped? (isDigit : Char → Bool) : List Char → Option (List Char)
  | [] => none
  | c :: r =>
    if !isDigit c then none
    else match r with
      | [] => some [c]
      | '_' :: r => (grouped? isDigit r).map (c :: ·)
      | r => (grouped? isDigit r).map (c :: ·)

/-- The value of a digit of a base up to sixteen. -/
def digitValue (c : Char) : Nat :=
  if c.isDigit then c.toNat - 48 else if 'a' ≤ c then c.toNat - 87 else c.toNat - 55

/-- The number of a row of digits. -/
def number (base : Nat) (digits : List Char) : Nat :=
  digits.foldl (fun n c => n * base + digitValue c) 0

/-- Whether a character is a digit of base sixteen. -/
def isHexDigit (c : Char) : Bool := c.isDigit || ('a' ≤ c && c ≤ 'f') || ('A' ≤ c && c ≤ 'F')

/-- The sign in front of a word. -/
def signed : List Char → Bool × List Char
  | '-' :: r => (true, r)
  | '+' :: r => (false, r)
  | r => (false, r)

/-- The digits of a whole part: a zero alone, or digits that start with another. -/
def whole? (cs : List Char) : Option (List Char) :=
  match grouped? Char.isDigit cs with
  | some ds => if ds.head? = some '0' ∧ cs.length ≠ 1 then none else some ds
  | none => none

/-- An integer of 64 bits. -/
def integer? (cs : List Char) : Option Int := do
  let natural (base : Nat) (isDigit : Char → Bool) (r : List Char) : Option Int := do
    let n := number base (← grouped? isDigit r)
    if n < Nat.pow 2 63 then some (n : Int) else none
  match cs with
  | '0' :: 'x' :: r => natural 16 isHexDigit r
  | '0' :: 'o' :: r => natural 8 (fun c => '0' ≤ c && c ≤ '7') r
  | '0' :: 'b' :: r => natural 2 (fun c => c = '0' || c = '1') r
  | cs =>
    let (negative, r) := signed cs
    let n := number 10 (← whole? r)
    if negative then if n ≤ Nat.pow 2 63 then some (-(n : Int)) else none
    else if n < Nat.pow 2 63 then some (n : Int) else none

/-- The exponent of a number. -/
def exponent? (cs : List Char) : Option Int := do
  let (negative, r) := signed cs
  let n := number 10 (← grouped? Char.isDigit r)
  some (if negative then -(n : Int) else n)

/-- Whether a word is a number with a fraction or an exponent, an infinity, or no number.  A
positive number beyond all double-precision numbers is none. -/
def isFloat (cs : List Char) : Bool :=
  let (negative, r) := signed cs
  if r = ['i', 'n', 'f'] || r = ['n', 'a', 'n'] then true
  else
    let isMark (c : Char) : Bool := c = 'e' || c = 'E'
    let mantissa := r.takeWhile fun c => !isMark c
    let scale := (r.dropWhile fun c => !isMark c).drop 1
    let wholePart := mantissa.takeWhile (· ≠ '.')
    let fraction := (mantissa.dropWhile (· ≠ '.')).drop 1
    let hasScale := mantissa.length ≠ r.length
    let hasFraction := wholePart.length ≠ mantissa.length
    match whole? wholePart, if hasFraction then grouped? Char.isDigit fraction else some [],
      if hasScale then exponent? scale else some 0 with
    | some ws, some fs, some e =>
      (hasScale || hasFraction) &&
        (negative || Decimal.isFinite ⟨false, number 10 (ws ++ fs), e - fs.length⟩)
    | _, _, _ => false

/-! ## Dates and times -/

/-- Two digits with a value in a range, and what follows them. -/
def pair? (low high : Nat) : List Char → Option (Nat × List Char)
  | a :: b :: r =>
    let n := number 10 [a, b]
    if a.isDigit && b.isDigit && low ≤ n && n ≤ high then some (n, r) else none
  | _ => none

/-- What follows a character. -/
def behind? (c : Char) : List Char → Option (List Char)
  | d :: r => if d = c then some r else none
  | [] => none

/-- How many days a month has. -/
def daysIn (year month : Nat) : Nat :=
  if month = 2 then if year % 4 = 0 ∧ (year % 100 ≠ 0 ∨ year % 400 = 0) then 29 else 28
  else if month = 4 ∨ month = 6 ∨ month = 9 ∨ month = 11 then 30
  else 31

/-- What follows a date. -/
def date? (cs : List Char) : Option (List Char) := do
  let (century, r) ← pair? 0 99 cs
  let (year, r) ← pair? 0 99 r
  let (month, r) ← pair? 1 12 (← behind? '-' r)
  let (_, r) ← pair? 1 (daysIn (century * 100 + year) month) (← behind? '-' r)
  some r

/-- What follows a time. -/
def time? (cs : List Char) : Option (List Char) := do
  let (_, r) ← pair? 0 23 cs
  let (_, r) ← pair? 0 59 (← behind? ':' r)
  let (_, r) ← pair? 0 60 (← behind? ':' r)
  match r with
  | '.' :: r => if (r.head?.any Char.isDigit) then some (r.dropWhile Char.isDigit) else none
  | r => some r

/-- Whether the rest of a date with a time is empty or a distance from universal time. -/
def isOffset (cs : List Char) : Bool :=
  match cs with
  | [] => true
  | ['Z'] => true
  | ['z'] => true
  | c :: r =>
    (c = '+' || c = '-') && (do
      let (_, r) ← pair? 0 23 r
      let (_, r) ← pair? 0 59 (← behind? ':' r)
      some r) = some []

/-- Whether a word is a time with or without an offset. -/
def isOffsetTime (cs : List Char) : Bool := (time? cs).any isOffset

/-- Whether a word is a date, a time, or a date with a time. -/
def isMoment (cs : List Char) : Bool :=
  match date? cs with
  | some [] => true
  | some (c :: r) => (c = 'T' || c = 't') && isOffsetTime r
  | none => time? cs = some []

/-! ## Words -/

/-- The value of a word. -/
def ofWord? (cs : List Char) : Option Value :=
  if cs = ['t', 'r', 'u', 'e'] then some (.boolean true)
  else if cs = ['f', 'a', 'l', 's', 'e'] then some (.boolean false)
  else if isMoment cs then some (.moment (String.ofList cs))
  else if isFloat cs then some (.float (String.ofList cs))
  else (integer? cs).map .integer

/-- A value without quotes and brackets, and what follows it. -/
def read (cs : List Char) : Option (Value × List Char) := do
  let word := cs.takeWhile fun c => !isBreak c
  let rest := cs.dropWhile fun c => !isBreak c
  match rest with
  | ' ' :: r =>
    let next := r.takeWhile fun c => !isBreak c
    if date? word = some [] && isOffsetTime next then
      some (.moment (String.ofList (word ++ ' ' :: next)), r.dropWhile fun c => !isBreak c)
    else (ofWord? word).map fun v => (v, rest)
  | rest => (ofWord? word).map fun v => (v, rest)

end SealedStore.Toml.Scalar
