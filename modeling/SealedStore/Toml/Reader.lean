import SealedStore.Toml.Quoted
import SealedStore.Toml.Scalar
import SealedStore.Toml.Table
/-!
# Documents, read

A document is read line by line: blank lines, headers, and assignments, whose values may span
lines.  Arrays and inline tables nest at most `Reader.maxDepth` deep, and a dotted name has
at most as many parts.
-/
namespace SealedStore.Toml

namespace Reader

/-- How deep values nest, and how many parts a name has. -/
def maxDepth : Nat := 79

/-! ## Blanks and line ends -/

/-- Whether a character is a blank within a line. -/
def isSpace (c : Char) : Bool := c = ' ' || c = '\t'

/-- A text behind its leading blanks. -/
def skipSpaces (cs : List Char) : List Char := cs.dropWhile isSpace

/-- Whether a character may stand in a comment: any but the control characters of ASCII, of which
the tab is allowed. -/
def isComment (c : Char) : Bool := c = '\t' || (32 ≤ c.toNat && c.toNat ≠ 127)

/-- A text behind blanks, line ends and comments.  What stops in a comment is no
line end and is left. -/
def skipLines (comment : Bool) : List Char → List Char
  | [] => []
  | c :: r =>
    if c = '\n' then skipLines false r
    else if c = '\r' && r.head? = some '\n' then skipLines false r
    else if comment then if isComment c then skipLines true r else c :: r
    else if isSpace c then skipLines false r
    else if c = '#' then skipLines true r
    else c :: r

/-- A text behind a line end.  The end of the text is one. -/
def lineEnd? : List Char → Option (List Char)
  | [] => some []
  | '\n' :: r => some r
  | '\r' :: '\n' :: r => some r
  | _ => none

/-- A text behind the rest of a line on which only a comment may stand. -/
def restOfLine? (cs : List Char) : Option (List Char) :=
  match skipSpaces cs with
  | '#' :: r => lineEnd? (r.dropWhile isComment)
  | r => lineEnd? r

/-! ## Names -/

/-- Whether a character may stand in a name without quotes. -/
def isBare (c : Char) : Bool := c.isAlphanum || c = '-' || c = '_'

/-- One part of a name, and what follows it. -/
def readName : List Char → Option (String × List Char)
  | '"' :: r => (Quoted.readBasic r).map fun (s, r) => (String.ofList s, r)
  | '\'' :: r => (Quoted.readLiteral r).map fun (s, r) => (String.ofList s, r)
  | cs =>
    let name := cs.takeWhile isBare
    if name = [] then none else some (String.ofList name, cs.dropWhile isBare)

/-- A dotted name of at most some number of parts: the parts in front of the last, the
last, and what follows. -/
def readPath : Nat → List Char → Option (List String × String × List Char)
  | 0, _ => none
  | parts + 1, cs => do
    let (name, r) ← readName (skipSpaces cs)
    match skipSpaces r with
    | '.' :: r => (readPath parts r).map fun (path, last, r) => (name :: path, last, r)
    | r => some ([], name, r)

/-! ## Values -/

/-- A reader of values. -/
abbrev ValueReader := List Char → Option (Value × List Char)

/-- A string or a word. -/
def readPlain : ValueReader
  | '"' :: r => (Quoted.read ('"' :: r)).map fun (s, r) => (.string (String.ofList s), r)
  | '\'' :: r => (Quoted.read ('\'' :: r)).map fun (s, r) => (.string (String.ofList s), r)
  | cs => Scalar.read cs

/-- An assignment, and what follows it. -/
def readAssignment (readValue : ValueReader) (cs : List Char) :
    Option (Children.Assignment × List Char) := do
  let (path, name, r) ← readPath maxDepth cs
  match r with
  | '=' :: r => do
    let (v, r) ← readValue (skipSpaces r)
    some (⟨path, name, v⟩, r)
  | _ => none

/-- The items of an array up to its bracket, in at most some number of steps. -/
def readItems (readValue : ValueReader) : Nat → List Char → Option (List Value × List Char)
  | 0, _ => none
  | steps + 1, cs =>
    match skipLines false cs with
    | ']' :: r => some ([], r)
    | r => do
      let (v, r) ← readValue r
      match skipLines false r with
      | ',' :: r => (readItems readValue steps r).map fun (vs, r) => (v :: vs, r)
      | ']' :: r => some ([v], r)
      | _ => none

/-- The assignments of an inline table up to its brace, of which there is at least one. -/
def readAssignments (readValue : ValueReader) :
    Nat → List Char → Option (List Children.Assignment × List Char)
  | 0, _ => none
  | steps + 1, cs => do
    let (a, r) ← readAssignment readValue cs
    match skipSpaces r with
    | ',' :: r => (readAssignments readValue steps r).map fun (as, r) => (a :: as, r)
    | '}' :: r => some ([a], r)
    | _ => none

/-- An inline table behind its opening brace. -/
def readInline (readValue : ValueReader) (cs : List Char) : Option (Value × List Char) :=
  match skipSpaces cs with
  | '}' :: r => some (.table [], r)
  | _ => do
    let (as, r) ← readAssignments readValue (cs.length + 1) cs
    let t ← Children.assignAll [] as
    some (.table (Node.entries t), r)

/-- A value in which arrays and inline tables nest at most some number deep. -/
def readValue : Nat → ValueReader
  | 0 => readPlain
  | depth + 1 => fun cs =>
    match cs with
    | '[' :: r => (readItems (readValue depth) (r.length + 1) r).map fun (vs, r) => (.array vs, r)
    | '{' :: r => readInline (readValue depth) r
    | cs => readPlain cs

/-! ## Lines -/

/-- A line: a header, or an assignment, which may span more than one line. -/
inductive Line where
  | header (h : Children.Header)
  | assignment (a : Children.Assignment)

/-- A header behind its first bracket. -/
def readHeader (cs : List Char) : Option (Children.Header × List Char) :=
  match cs with
  | '[' :: r => do
    let (path, name, r) ← readPath maxDepth r
    match r with
    | ']' :: ']' :: r => some (⟨path, name, true⟩, r)
    | _ => none
  | r => do
    let (path, name, r) ← readPath maxDepth r
    match r with
    | ']' :: r => some (⟨path, name, false⟩, r)
    | _ => none

/-- The lines of a text, in at most some number of steps. -/
def readLines : Nat → List Char → Option (List Line)
  | 0, _ => none
  | steps + 1, cs =>
    match skipSpaces cs with
    | [] => some []
    | '[' :: r => do
      let (h, r) ← readHeader r
      some (.header h :: (← readLines steps (← restOfLine? r)))
    | c :: r =>
      if c = '#' || c = '\n' || c = '\r' then do readLines steps (← restOfLine? (c :: r))
      else do
        let (a, r) ← readAssignment (readValue maxDepth) (c :: r)
        some (.assignment a :: (← readLines steps (← restOfLine? r)))

/-- The assignments in front of the first header, and each header with its assignments. -/
def group : List Line → List Children.Assignment × List (Children.Header × List Children.Assignment)
  | [] => ([], [])
  | .assignment a :: r => (a :: (group r).1, (group r).2)
  | .header h :: r => ([], (h, (group r).1) :: (group r).2)

/-- A text without a byte order mark at its start. -/
def skipMark : List Char → List Char
  | c :: r => if c.toNat = 0xFEFF then r else c :: r
  | [] => []

end Reader

/-- The table that a document describes. -/
def parse? (s : String) : Option Value := do
  let cs := Reader.skipMark s.toList
  let (free, groups) := Reader.group (← Reader.readLines (cs.length + 1) cs)
  let root ← Children.assignAll [] free
  some (.table (Node.entries (← groups.foldlM (fun t g => t.extend g.1 g.2) root)))

end SealedStore.Toml
