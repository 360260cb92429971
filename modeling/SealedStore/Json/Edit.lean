import SealedStore.Json.Basic
/-!
# Looking into JSON trees and changing them

The first member with a key counts.  Keys that denote no text are passed over.
-/
namespace SealedStore.Json

/-- The value of a member. -/
def get? (j : Json) (key : String) : Option Json :=
  match j with
  | object members => (members.find? fun m => m.1 = some key).map (·.2)
  | _ => none

/-- The members of an object whose keys denote texts. -/
def members (j : Json) : List (String × Json) :=
  match j with
  | object members => members.filterMap fun m => m.1.map fun k => (k, m.2)
  | _ => []

/-- Members laid over others: those with an old key take its place, the rest follows. -/
def overlay (base given : List (String × Json)) : List (String × Json) :=
  base.map (fun f => (given.find? fun g => g.1 = f.1).getD f) ++
    given.filter fun g => !(base.any fun f => f.1 = g.1)

mutual

/-- The tree with every text changed that is a value. -/
def mapText (f : String → String) : Json → Json
  | string (some s) => text (f s)
  | array items => array (mapItems f items)
  | object members => object (mapMembers f members)
  | j => j

/-- The items with every text changed. -/
def mapItems (f : String → String) : List Json → List Json
  | [] => []
  | j :: r => mapText f j :: mapItems f r

/-- The members with every text changed that is a value. -/
def mapMembers (f : String → String) : List (Option String × Json) → List (Option String × Json)
  | [] => []
  | (k, j) :: r => (k, mapText f j) :: mapMembers f r

end

end SealedStore.Json
