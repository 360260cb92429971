/-!
# Quoted strings

A string is written in one of four forms, each with its own quotes: basic strings have escapes,
literal ones stand for themselves, and both may span lines between triple quotes.  `render` takes
the plainest form that a text admits.  `read` reads all four.
-/
namespace SealedStore.Toml.Quoted

/-! ## Writing -/

/-- The longest run of a character. -/
def longestRun (q : Char) (current best : Nat) : List Char → Nat
  | [] => max current best
  | c :: r =>
    if c = q then longestRun q (current + 1) best r else longestRun q 0 (max current best) r

/-- Whether a character must be escaped wherever it stands: a control character that is neither a
tab nor a line feed. -/
def isControl (c : Char) : Bool := (c.toNat < 32 && c ≠ '\t' && c ≠ '\n') || c.toNat = 127

/-- A digit of a code, in upper case. -/
def codeDigit (n : Nat) : Char := if n < 10 then Char.ofNat (48 + n) else Char.ofNat (55 + n)

/-- A character below 256 as an escaped code. -/
def codeEscape (c : Char) : List Char :=
  ['\\', 'u', '0', '0', codeDigit (c.toNat / 16), codeDigit (c.toNat % 16)]

/-- A character within a basic string, quotes apart. -/
def escape (multiline : Bool) (c : Char) : List Char :=
  if c = '\\' then ['\\', '\\']
  else if c = '\t' then ['\\', 't']
  else if c = '\n' then if multiline then ['\n'] else ['\\', 'n']
  else if c = '\r' then ['\\', 'r']
  else if c = '\x08' then ['\\', 'b']
  else if c = '\x0c' then ['\\', 'f']
  else if c.toNat < 32 || c.toNat = 127 then codeEscape c
  else [c]

/-- A text within a basic string.  Up to `room` quotes may stand in a row, of which `run` are
written: the next one is escaped and starts a new row. -/
def escapeAll (multiline : Bool) (room run : Nat) : List Char → List Char
  | [] => []
  | c :: r =>
    if c = '"' then
      if run < room then '"' :: escapeAll multiline room (run + 1) r
      else '\\' :: '"' :: escapeAll multiline room 0 r
    else escape multiline c ++ escapeAll multiline room 0 r

/-- The forms of a string. -/
inductive Form where
  | basic
  | literal
  | longBasic
  | longLiteral
deriving DecidableEq, Repr

/-- The plainest form of a text: a basic string without escapes, a literal, a long basic string
without escapes, a long literal, or a basic string with escapes, which is long where the text has
more than one line. -/
def form (s : List Char) : Form :=
  let controls := s.any isControl
  let backslash := s.contains '\\'
  let lines := s.contains '\n'
  let double := longestRun '"' 0 0 s
  let single := longestRun '\'' 0 0 s
  if !controls && !backslash && double = 0 && !lines then .basic
  else if !controls && single = 0 && !lines then .literal
  else if !controls && !backslash && double ≤ 2 then .longBasic
  else if !controls && single ≤ 2 then .longLiteral
  else if lines then .longBasic
  else .basic

/-- A text of more than one line starts on a line of its own. -/
def opening (s : List Char) : List Char := if s.contains '\n' then ['\n'] else []

/-- A text in a form that it admits. -/
def write (s : List Char) : Form → List Char
  | .basic => '"' :: escapeAll false 0 0 s ++ ['"']
  | .literal => '\'' :: s ++ ['\'']
  | .longBasic => ['"', '"', '"'] ++ opening s ++ escapeAll true 2 0 s ++ ['"', '"', '"']
  | .longLiteral => ['\'', '\'', '\''] ++ opening s ++ s ++ ['\'', '\'', '\'']

/-- A text in its plainest form. -/
def render (s : List Char) : List Char := write s (form s)

/-! ## Reading -/

/-- The value of a hexadecimal digit. -/
def hexValue? (c : Char) : Option Nat :=
  if '0' ≤ c ∧ c ≤ '9' then some (c.toNat - 48)
  else if 'a' ≤ c ∧ c ≤ 'f' then some (c.toNat - 87)
  else if 'A' ≤ c ∧ c ≤ 'F' then some (c.toNat - 55)
  else none

/-- The number of a row of hexadecimal digits. -/
def hexNumber? (cs : List Char) : Option Nat :=
  cs.foldlM (fun n c => (hexValue? c).map fun d => n * 16 + d) 0

/-- The character with a code, which is no surrogate. -/
def coded? (cs : List Char) : Option Char := do
  let n ← hexNumber? cs
  if h : n.isValidChar then some (Char.ofNatAux n h) else none

/-- The character that a one-letter escape stands for. -/
def escaped? (c : Char) : Option Char :=
  if c = '"' then some '"'
  else if c = '\\' then some '\\'
  else if c = 'b' then some '\x08'
  else if c = 't' then some '\t'
  else if c = 'n' then some '\n'
  else if c = 'f' then some '\x0c'
  else if c = 'r' then some '\r'
  else none

/-- Whether a character may stand for itself: it is no control character but a tab. -/
def isOpen (c : Char) : Bool := c = '\t' || (32 ≤ c.toNat && c.toNat ≠ 127)

/-- A character, if there is one, in front of what is read. -/
def push (c : Option Char) (r : Option (List Char × List Char)) :
    Option (List Char × List Char) := do
  let c ← c
  let (cs, rest) ← r
  some (c :: cs, rest)

/-- A basic string behind its opening quote, and what follows it. -/
def readBasic : List Char → Option (List Char × List Char)
  | [] => none
  | c :: r =>
    if c = '"' then some ([], r)
    else if c = '\\' then
      match r with
      | [] => none
      | e :: r =>
        if e = 'u' then
          match r with
          | a :: b :: c :: d :: r => push (coded? [a, b, c, d]) (readBasic r)
          | _ => none
        else if e = 'U' then
          match r with
          | a :: b :: c :: d :: e :: f :: g :: h :: r =>
            push (coded? [a, b, c, d, e, f, g, h]) (readBasic r)
          | _ => none
        else push (escaped? e) (readBasic r)
    else if isOpen c then push (some c) (readBasic r)
    else none

/-- A literal string behind its opening quote, and what follows it. -/
def readLiteral : List Char → Option (List Char × List Char)
  | [] => none
  | c :: r =>
    if c = '\'' then some ([], r)
    else if isOpen c then push (some c) (readLiteral r)
    else none

/-- Whether the rest of a line is blank. -/
def endsLine : List Char → Bool
  | [] => false
  | c :: r =>
    if c = ' ' || c = '\t' then endsLine r
    else c = '\n' || (c = '\r' && r.head? = some '\n')

/-- The end of a string between triple quotes, of which one was read: up to two quotes more
belong to the string. -/
def close? (q : Char) : List Char → Option (List Char × List Char)
  | b :: c :: d :: e :: r =>
    if b ≠ q || c ≠ q then none
    else if d ≠ q then some ([], d :: e :: r)
    else if e ≠ q then some ([q], e :: r)
    else some ([q, q], r)
  | [b, c, d] =>
    if b ≠ q || c ≠ q then none
    else if d ≠ q then some ([], [d])
    else some ([q], [])
  | [b, c] => if b ≠ q || c ≠ q then none else some ([], [])
  | _ => none

/-- A basic string between triple quotes, and what follows it.  A backslash at the end of a line
passes over all blanks and line ends that follow it, which is then the state `skips`. -/
def readLongBasic (skips : Bool) : List Char → Option (List Char × List Char)
  | [] => none
  | c :: r =>
    if skips && (c = ' ' || c = '\t' || c = '\n') then readLongBasic true r
    else if c = '\r' then if r.head? = some '\n' then readLongBasic skips r else none
    else if c = '\n' then push (some c) (readLongBasic false r)
    else if c = '"' then
      match close? '"' r with
      | some closed => some closed
      | none => push (some c) (readLongBasic false r)
    else if c = '\\' then
      if endsLine r then readLongBasic true r
      else
        match r with
        | [] => none
        | e :: r =>
          if e = 'u' then
            match r with
            | a :: b :: c :: d :: r => push (coded? [a, b, c, d]) (readLongBasic false r)
            | _ => none
          else if e = 'U' then
            match r with
            | a :: b :: c :: d :: e :: f :: g :: h :: r =>
              push (coded? [a, b, c, d, e, f, g, h]) (readLongBasic false r)
            | _ => none
          else push (escaped? e) (readLongBasic false r)
    else if isOpen c then push (some c) (readLongBasic false r)
    else none

/-- A literal string between triple quotes, and what follows it. -/
def readLongLiteral : List Char → Option (List Char × List Char)
  | [] => none
  | c :: r =>
    if c = '\r' then if r.head? = some '\n' then readLongLiteral r else none
    else if c = '\'' then
      match close? '\'' r with
      | some closed => some closed
      | none => push (some c) (readLongLiteral r)
    else if c = '\n' || isOpen c then push (some c) (readLongLiteral r)
    else none

/-- A text behind a line end at its start. -/
def skipLineEnd : List Char → List Char
  | '\n' :: r => r
  | '\r' :: '\n' :: r => r
  | r => r

/-- A string in any form, and what follows it. -/
def read : List Char → Option (List Char × List Char)
  | '"' :: '"' :: '"' :: r => readLongBasic false (skipLineEnd r)
  | '"' :: r => readBasic r
  | '\'' :: '\'' :: '\'' :: r => readLongLiteral (skipLineEnd r)
  | '\'' :: r => readLiteral r
  | _ => none

end SealedStore.Toml.Quoted
