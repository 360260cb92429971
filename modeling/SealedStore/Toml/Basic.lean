/-!
# TOML values

What a TOML document says.  Numbers with a fraction and dates are kept as they are written: nothing
here computes with them.
-/
namespace SealedStore.Toml

/-- A value of a document. -/
inductive Value where
  | string (s : String)
  | integer (n : Int)
  /-- A number with a fraction or an exponent, an infinity, or no number. -/
  | float (written : String)
  | boolean (b : Bool)
  /-- A date, a time, or both. -/
  | moment (written : String)
  | array (items : List Value)
  | table (entries : List (String × Value))
deriving Inhabited, Repr

namespace Value

/-- The text of a string. -/
def text? : Value → Option String
  | string s => some s
  | _ => none

/-- Whether it is true or false. -/
def flag? : Value → Option Bool
  | boolean b => some b
  | _ => none

/-- The items of an array. -/
def items? : Value → Option (List Value)
  | array items => some items
  | _ => none

/-- The entry of a table with a name. -/
def entry? (name : String) (entries : List (String × Value)) : Option Value :=
  (entries.find? fun e => e.1 = name).map (·.2)

/-- Whether it holds nothing: an empty array or table. -/
def isHollow : Value → Bool
  | array [] => true
  | table [] => true
  | _ => false

/-- The named fields of a structure, `none` where a field is absent.  A structure is a table, in
which other entries are passed over, or an array of its fields in order, of which the last may be
absent and further ones are passed over.  A date is a table of nothing that has a name. -/
def fields? (names : List String) : Value → Option (List (Option Value))
  | table entries => some (names.map fun name => entry? name entries)
  | array items => some (names.zipIdx.map fun n => items[n.2]?)
  | moment _ => some (names.map fun _ => none)
  | _ => none

/-- The name of a choice: a string, or a table with one entry of nothing under that name. -/
def choice? : Value → Option String
  | string s => some s
  | table [(name, v)] => if v.isHollow then some name else none
  | _ => none

end Value
end SealedStore.Toml
