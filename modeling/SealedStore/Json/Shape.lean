import SealedStore.Octets
/-!
# What a reader expects of a text

A reader of a JSON text is told in advance where byte strings of a fixed length are to be read,
since one that is given as an array is read item by item.  All other places are read alike
whatever is expected of them.
-/
namespace SealedStore.Json

/-- What is expected at a place. -/
inductive Shape where
  /-- Any value. -/
  | any
  /-- A byte string of this length. -/
  | octets (n : Nat)
  /-- A list of values of one shape. -/
  | list (item : Shape)
  /-- A structure with these fields. -/
  | fields (fields : List (String × Shape))
deriving Inhabited

namespace Shape

/-- What is expected of the member with a key. -/
def member (key : Option String) : Shape → Shape
  | fields fs => match fs.find? fun f => some f.1 = key with
    | some f => f.2
    | none => any
  | _ => any

/-- What is expected of the next item of an array. -/
def item : Shape → Shape
  | list s => s
  | fields (f :: _) => f.2
  | _ => any

/-- What is expected of an array behind its next item. -/
def behindItem : Shape → Shape
  | octets n => octets (n - 1)
  | fields (_ :: r) => fields r
  | s => s

/-- Whether all bytes that are expected of an array have been read. -/
def isFull : Shape → Bool
  | octets 0 => true
  | _ => false

/-- The names of the fields of a structure. -/
def names (fs : List (String × Shape)) : List String := fs.map (·.1)

end Shape
end SealedStore.Json
