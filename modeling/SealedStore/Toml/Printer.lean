import SealedStore.Toml.Basic
import SealedStore.Toml.Quoted
/-!
# Documents, written

A document of named tables, each with its assignments on lines of their own and a blank line between
tables.  An array of more than one item has each item on a line of its own.
-/
namespace SealedStore.Toml

/-- What is written as the value of an assignment. -/
inductive Setting where
  | text (s : String)
  | flag (b : Bool)
  | texts (items : List String)
deriving DecidableEq, Repr

/-- The value of a setting. -/
def Setting.toValue : Setting → Value
  | text s => .string s
  | flag b => .boolean b
  | texts items => .array (items.map .string)

/-- A table that is written under a header of its own. -/
structure Section where
  name : String
  settings : List (String × Setting)
deriving DecidableEq, Repr

namespace Printer

/-- A setting as text. -/
def setting : Setting → List Char
  | .text s => Quoted.render s.toList
  | .flag true => "true".toList
  | .flag false => "false".toList
  | .texts [] => "[]".toList
  | .texts [s] => '[' :: Quoted.render s.toList ++ [']']
  | .texts items =>
    "[\n".toList ++ items.flatMap
      (fun s => "    ".toList ++ Quoted.render s.toList ++ ",\n".toList) ++ [']']

/-- A table as text. -/
def block (s : Section) : List Char :=
  '[' :: s.name.toList ++ "]\n".toList ++
    s.settings.flatMap fun e => e.1.toList ++ " = ".toList ++ setting e.2 ++ ['\n']

end Printer

/-- A document of tables. -/
def render (sections : List Section) : String :=
  String.ofList (List.intercalate ['\n'] (sections.map Printer.block))

/-- The value that a document of tables describes. -/
def ofSections (sections : List Section) : Value :=
  .table (sections.map fun s => (s.name, .table (s.settings.map fun e => (e.1, e.2.toValue))))

end SealedStore.Toml
