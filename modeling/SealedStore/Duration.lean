import SealedStore.Text.Blank
/-!
# Durations

A span of time in whole nanoseconds, of at most 2⁶⁴ seconds.  It is read from a sum of amounts with
units, such as `1h 30m`, where spaces between digits are passed over, an amount may have a fraction,
and a unit may be repeated.  A fraction must come to whole nanoseconds, and from hours on to whole
seconds.  The written form has the largest units first.  `Duration.exact` is the other form, one
decimal number with the largest unit below it.
-/
namespace SealedStore

/-- A span of time. -/
structure Duration where
  /-- How many nanoseconds it lasts. -/
  nanos : Nat
deriving DecidableEq, Repr

namespace Duration

/-- How many nanoseconds a second has. -/
def nanosPerSecond : Nat := 1000000000

/-- A duration of whole seconds. -/
def ofSeconds (n : Nat) : Duration := ⟨n * nanosPerSecond⟩

/-- A duration of whole milliseconds. -/
def ofMillis (n : Nat) : Duration := ⟨n * 1000000⟩

/-- A duration of whole microseconds. -/
def ofMicros (n : Nat) : Duration := ⟨n * 1000⟩

/-- The whole seconds. -/
def seconds (d : Duration) : Nat := d.nanos / nanosPerSecond

/-- The nanoseconds beyond the whole seconds. -/
def subsec (d : Duration) : Nat := d.nanos % nanosPerSecond

/-- What numbers and seconds must stay below. -/
def limit : Nat := Nat.pow 2 64

/-! ## Reading -/

/-- Why a text is not a duration. -/
inductive Error where
  | invalidCharacter (offset : Nat)
  | numberExpected (offset : Nat)
  | unknownUnit (unit : String) (value : Nat)
  | numberOverflow
  | empty
deriving DecidableEq, Repr

/-- The message for people. -/
def Error.message : Error → String
  | invalidCharacter offset => "invalid character at " ++ toString offset
  | numberExpected offset => "expected number at " ++ toString offset
  | unknownUnit unit value =>
    if unit = "" then
      "time unit needed, for example " ++ toString value ++ "sec or " ++ toString value ++ "ms"
    else
      "unknown time unit \"" ++ unit ++
        "\", supported units: ns, us/µs, ms, sec, min, hours, days, " ++
        "weeks, months, years (and few variations)"
  | numberOverflow =>
    "number is too large or cannot be represented without a lack of precision " ++
      "(values below 1ns are not supported)"
  | empty => "value was empty"

/-- A unit: the nanoseconds in it, or the seconds. -/
inductive Scale where
  | nanos (n : Nat)
  | seconds (n : Nat)
deriving DecidableEq, Repr

/-- The unit with a name.  A month has 30.44 days and a year 365.25. -/
def unit? (s : String) : Option Scale :=
  if ["nanos", "nsec", "ns"].contains s then some (.nanos 1)
  else if ["usec", "us", "µs"].contains s then some (.nanos 1000)
  else if ["millis", "msec", "ms"].contains s then some (.nanos 1000000)
  else if ["seconds", "second", "secs", "sec", "s"].contains s then some (.seconds 1)
  else if ["minutes", "minute", "min", "mins", "m"].contains s then some (.seconds 60)
  else if ["hours", "hour", "hr", "hrs", "h"].contains s then some (.seconds 3600)
  else if ["days", "day", "d"].contains s then some (.seconds 86400)
  else if ["weeks", "week", "wk", "wks", "w"].contains s then some (.seconds 604800)
  else if ["months", "month", "M"].contains s then some (.seconds 2630016)
  else if ["years", "year", "yr", "yrs", "y"].contains s then some (.seconds 31557600)
  else none

/-- A fraction of an amount. -/
structure Fraction where
  numerator : Nat
  denominator : Nat
deriving DecidableEq, Repr

/-- A product that stays below the limit. -/
def times (a b : Nat) : Except Error Nat :=
  if a * b < limit then .ok (a * b) else .error .numberOverflow

/-- A quotient that leaves no remainder. -/
def dividedBy (a b : Nat) : Except Error Nat :=
  if a % b = 0 then .ok (a / b) else .error .numberOverflow

/-- A duration with seconds and nanoseconds added. -/
def plus (d : Duration) (secs nanos : Nat) : Except Error Duration :=
  let sum := d.nanos + secs * nanosPerSecond + nanos
  if d.subsec + nanos < limit ∧ sum / nanosPerSecond < limit then .ok ⟨sum⟩
  else .error .numberOverflow

/-- A duration with an amount of a unit added. -/
def plusAmount (d : Duration) (n : Nat) (fraction : Option Fraction) (unit : String) :
    Except Error Duration := do
  match unit? unit with
  | none => throw (.unknownUnit unit n)
  | some scale =>
    let whole ← match scale with
      | .nanos k => do plus d 0 (← times n k)
      | .seconds k => do plus d (← times n k) 0
    match fraction, scale with
    | none, _ => pure whole
    | some _, .nanos 1 => throw .numberOverflow
    | some f, .nanos k => do plus whole 0 (← dividedBy (← times f.numerator k) f.denominator)
    | some f, .seconds k =>
      if k ≤ 60 then do
        plus whole 0 (← dividedBy (← times f.numerator (k * nanosPerSecond)) f.denominator)
      else do plus whole (← dividedBy (← times f.numerator k) f.denominator) 0

/-- Whether a character may stand in a unit. -/
def isUnitChar (c : Char) : Bool := c.isAlpha || c = 'µ'

/-- The value of a digit. -/
def digit (c : Char) : Nat := c.toNat - 48

/-- The characters of a text with the offset of each in bytes. -/
def withOffsets : Nat → List Char → List (Char × Nat)
  | _, [] => []
  | i, c :: r => (c, i) :: withOffsets (i + c.utf8Size) r

/-- What is being read: blanks before a number, a number, its fraction, or its unit. -/
inductive Phase where
  | gap (start : Nat)
  | number (n : Nat)
  | fraction (n : Nat) (f : Fraction) (offset : Nat)
  | unit (n : Nat) (f : Option Fraction) (letters : List Char)
deriving DecidableEq, Repr

/-- The number with one more digit. -/
def appendDigit (n : Nat) (c : Char) : Except Error Nat :=
  if n * 10 + digit c < limit then .ok (n * 10 + digit c) else .error .numberOverflow

/-- The fraction with one more digit. -/
def Fraction.append (f : Fraction) (c : Char) : Except Error Fraction := do
  let denominator ← times f.denominator 10
  pure ⟨← appendDigit f.numerator c, denominator⟩

/-- A fraction must have a digit. -/
def Fraction.check (f : Fraction) (offset : Nat) : Except Error Fraction :=
  if f.denominator = 1 then .error (.invalidCharacter offset) else .ok f

/-- One character read. -/
def Phase.step (d : Duration) (c : Char) (offset : Nat) : Phase → Except Error (Duration × Phase)
  | gap start =>
    if c.isDigit then .ok (d, number (digit c))
    else if Text.isBlank c then .ok (d, gap start)
    else .error (.numberExpected start)
  | number n =>
    if c.isDigit then do pure (d, number (← appendDigit n c))
    else if Text.isBlank c then .ok (d, number n)
    else if isUnitChar c then .ok (d, unit n none [c])
    else if c = '.' then .ok (d, fraction n ⟨0, 1⟩ offset)
    else .error (.invalidCharacter offset)
  | fraction n f last =>
    if c.isDigit then do pure (d, fraction n (← f.append c) (offset + 1))
    else if Text.isBlank c then .ok (d, fraction n f (offset + c.utf8Size))
    else if isUnitChar c then do pure (d, unit n (some (← f.check last)) [c])
    else .error (.invalidCharacter last)
  | unit n f letters =>
    if c.isDigit then do
      pure (← plusAmount d n f (String.ofList letters.reverse), number (digit c))
    else if Text.isBlank c then do
      pure (← plusAmount d n f (String.ofList letters.reverse), gap (offset + c.utf8Size))
    else if isUnitChar c then .ok (d, unit n f (c :: letters))
    else .error (.invalidCharacter offset)

/-- The duration at the end of the text. -/
def Phase.finish (d : Duration) : Phase → Except Error Duration
  | gap _ => .ok d
  | number n => plusAmount d n none ""
  | fraction n f last => do plusAmount d n (some (← f.check last)) ""
  | unit n f letters => plusAmount d n f (String.ofList letters.reverse)

/-- The characters read one by one. -/
def readFrom (d : Duration) (phase : Phase) : List (Char × Nat) → Except Error Duration
  | [] => phase.finish d
  | (c, offset) :: r => do
    let next ← phase.step d c offset
    readFrom next.1 next.2 r

/-- A duration from its text. -/
def read (s : String) : Except Error Duration :=
  if s = "0" then .ok ⟨0⟩
  else if s.toList.all Text.isBlank then .error .empty
  else readFrom ⟨0⟩ (.gap 0) (withOffsets 0 s.toList)

/-! ## Writing -/

/-- One part of the text, nothing for zero. -/
def part (n : Nat) (unit : String) : List String := if n = 0 then [] else [toString n ++ unit]

/-- One part of the text, its unit with an s from two on. -/
def pluralPart (n : Nat) (unit : String) : List String :=
  part n (if n = 1 then unit else unit ++ "s")

/-- The text of a duration. -/
def text (d : Duration) : String :=
  let s := d.seconds
  let ofMonth := s % 31557600 % 2630016
  let parts := pluralPart (s / 31557600) "year" ++ pluralPart (s % 31557600 / 2630016) "month" ++
    pluralPart (ofMonth / 86400) "day" ++ part (ofMonth % 86400 / 3600) "h" ++
    part (ofMonth % 3600 / 60) "m" ++ part (ofMonth % 60) "s" ++
    part (d.subsec / 1000000) "ms" ++ part (d.subsec / 1000 % 1000) "us" ++
      part (d.subsec % 1000) "ns"
  if parts.isEmpty then "0s" else " ".intercalate parts

/-- A decimal number without zeros at its end: a whole part and `places` digits behind the point. -/
def decimalText (whole rest places : Nat) : String :=
  let digits := (Nat.toDigits 10 (Nat.pow 10 places + rest)).drop 1
  let kept := (digits.reverse.dropWhile (· = '0')).reverse
  toString whole ++ if kept.isEmpty then "" else "." ++ String.ofList kept

/-- The duration as one decimal number of its largest unit. -/
def exact (d : Duration) : String :=
  if nanosPerSecond ≤ d.nanos then decimalText d.seconds d.subsec 9 ++ "s"
  else if 1000000 ≤ d.nanos then decimalText (d.nanos / 1000000) (d.nanos % 1000000) 6 ++ "ms"
  else if 1000 ≤ d.nanos then decimalText (d.nanos / 1000) (d.nanos % 1000) 3 ++ "µs"
  else toString d.nanos ++ "ns"

end Duration
end SealedStore
