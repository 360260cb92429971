import SealedStore.Toml.Basic
/-!
# Tables under construction

A document names a table more than once: by its own header, by the headers of tables in it, and by
dotted names.  Which of these may meet is decided here.  A table is remembered with the way in which
it came about; a value, also an inline table, is complete and takes no more entries.
-/
namespace SealedStore.Toml

/-- How a table came about. -/
inductive Origin where
  /-- Its own header, or an element of a series of tables. -/
  | header
  /-- A header of a table in it. -/
  | implied
  /-- A dotted name. -/
  | dotted
deriving DecidableEq, Repr

/-- An entry of a table that may still grow. -/
inductive Node where
  | leaf (v : Value)
  | branch (origin : Origin) (children : List (String × Node))
  /-- Tables with the same name, of which the last may grow. -/
  | series (tables : List (List (String × Node)))
deriving Inhabited

/-- The entries of a table that may still grow. -/
abbrev Children := List (String × Node)

namespace Node

mutual

/-- The value of an entry. -/
def toValue : Node → Value
  | leaf v => v
  | branch _ children => .table (entries children)
  | series tables => .array (tableValues tables)

/-- The values of the entries of a table. -/
def entries : List (String × Node) → List (String × Value)
  | [] => []
  | (k, n) :: r => (k, n.toValue) :: entries r

/-- The tables of a series. -/
def tableValues : List (List (String × Node)) → List Value
  | [] => []
  | t :: r => .table (entries t) :: tableValues r

end

end Node

namespace Children

/-- The entry with a name. -/
def find? (t : Children) (name : String) : Option Node :=
  (List.find? (fun e => e.1 = name) t).map (·.2)

/-- The table with an entry, which takes the place of one with the same name. -/
def put (name : String) (n : Node) : Children → Children
  | [] => [(name, n)]
  | e :: r => if e.1 = name then (name, n) :: r else e :: put name n r

/-- Changes the table at a path.  Tables that are missing on the way are made: a dotted path makes
dotted tables and passes through no table that has a header. -/
def change (dotted : Bool) (f : Origin → Children → Option Children) :
    Origin → List String → Children → Option Children
  | origin, [], t => f origin t
  | _, name :: path, t =>
    match t.find? name with
    | none => do
      let made := if dotted then Origin.dotted else Origin.implied
      some (t.put name (.branch made (← change dotted f made path [])))
    | some (.leaf _) => none
    | some (.branch origin inner) =>
      if dotted && origin = .header then none
      else do some (t.put name (.branch origin (← change dotted f origin path inner)))
    | some (.series tables) => do
      let inner ← change dotted f .header path (← tables.getLast?)
      some (t.put name (.series (tables.dropLast ++ [inner])))

/-- A value under a dotted name.  The name must be new, and only dotted tables grow from outside. -/
def assign (t : Children) (path : List String) (name : String) (v : Value) : Option Children :=
  change true (fun origin inner =>
    if (path ≠ [] && origin ≠ .dotted) || (inner.find? name).isSome then none
    else some (inner.put name (.leaf v))) .header path t

/-- An assignment: a dotted name, in front of its last part and the last part, and a value. -/
structure Assignment where
  path : List String
  name : String
  value : Value

/-- The table after assignments. -/
def assignAll (t : Children) (assignments : List Assignment) : Option Children :=
  assignments.foldlM (fun t a => t.assign a.path a.name a.value) t

/-- What stands above a group of assignments: the name of one table, or of one
more table of a series. -/
structure Header where
  path : List String
  name : String
  repeats : Bool

/-- The root table with a group of assignments under a header.  A table may be named after tables in
it, but by one header only. -/
def extend (root : Children) (header : Header) (assignments : List Assignment) : Option Children :=
  change false (fun _ parent =>
    match header.repeats, parent.find? header.name with
    | true, none => do some (parent.put header.name (.series [← assignAll [] assignments]))
    | true, some (.series tables) => do
      some (parent.put header.name (.series (tables ++ [← assignAll [] assignments])))
    | false, none => do some (parent.put header.name (.branch .header (← assignAll [] assignments)))
    | false, some (.branch .implied t) => do
      some (parent.put header.name (.branch .header (← assignAll t assignments)))
    | _, _ => none) .header header.path root

end Children
end SealedStore.Toml
