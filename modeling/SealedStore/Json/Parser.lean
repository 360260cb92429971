import SealedStore.Json.Excess
import SealedStore.Json.Shape
/-!
# JSON texts, read

A reader for the whole grammar.  Nesting is not limited here.  The number of steps allowed is the
length of the text, which no reading uses up, as each step takes a byte.  The shape that is expected
matters in one place only: behind the last byte of a byte string that is given as an array, an item
in excess is passed over.
-/
namespace SealedStore.Json

mutual

/-- A value of which a shape is expected, and what follows it. -/
def readValue : (steps : Nat) → Shape → Bytes → Option (Json × Bytes)
  | 0, _, _ => none
  | steps + 1, shape, b =>
    match skipBlanks b with
    | [] => none
    | c :: r =>
      if c = 123 then
        match skipBlanks r with
        | 125 :: rest => some (object [], rest)
        | r => (readMembers steps shape r).map fun (ms, rest) => (object ms, rest)
      else if c = 91 then
        match skipBlanks r with
        | 93 :: rest => some (array [], rest)
        | r => (readItems steps shape r).map fun (js, rest) => (array js, rest)
      else if c = 34 then (readString r).map fun (s, rest) => (string s, rest)
      else if c = 110 then (readWord [117, 108, 108] r).map fun rest => (null, rest)
      else if c = 116 then (readWord [114, 117, 101] r).map fun rest => (bool true, rest)
      else if c = 102 then (readWord [97, 108, 115, 101] r).map fun rest => (bool false, rest)
      else readNumber (c :: r)

/-- Items up to the closing bracket, of which there is at least one. -/
def readItems : (steps : Nat) → Shape → Bytes → Option (List Json × Bytes)
  | 0, _, _ => none
  | steps + 1, shape, b => do
    let (j, r) ← readValue steps shape.item b
    match skipBlanks r with
    | 93 :: rest => some ([j], rest)
    | 44 :: rest =>
      if shape.behindItem.isFull then (Excess.close? rest).map fun rest => ([j], rest)
      else (readItems steps shape.behindItem rest).map fun (js, rest) => (j :: js, rest)
    | _ => none

/-- Members up to the closing brace, of which there is at least one. -/
def readMembers : (steps : Nat) → Shape → Bytes → Option (List (Option String × Json) × Bytes)
  | 0, _, _ => none
  | steps + 1, shape, b =>
    match skipBlanks b with
    | 34 :: r => do
      let (k, r) ← readString r
      match skipBlanks r with
      | 58 :: r => do
        let (j, r) ← readValue steps (shape.member k) r
        match skipBlanks r with
        | 125 :: rest => some ([(k, j)], rest)
        | 44 :: rest => (readMembers steps shape rest).map fun (ms, rest) => ((k, j) :: ms, rest)
        | _ => none
      | _ => none
    | _ => none

end

/-- The value of a whole text, of which a shape is expected. -/
def parseAs? (shape : Shape) (b : Bytes) : Option Json := do
  let (j, rest) ← readValue (b.length + 1) shape b
  if skipBlanks rest = [] then some j else none

/-- The value of a whole text. -/
def parse? (b : Bytes) : Option Json := parseAs? .any b

end SealedStore.Json
