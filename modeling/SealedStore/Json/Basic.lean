import SealedStore.Decimal
import SealedStore.Octets
/-!
# JSON values

A tree of what a JSON text says.  Two things that a text can say and that a reader of fields may
refuse are kept apart: a number that is not a plain row of digits is a `decimal`, and a string
literal that denotes no Unicode text (a lone surrogate, or bytes that are not UTF-8) is `none`.
Both may stand in a field that nobody reads.
-/
namespace SealedStore

/-- The tree of a JSON text. -/
inductive Json where
  | null
  | bool (b : Bool)
  | natural (n : Nat)
  | decimal (d : Decimal)
  | string (s : Option String)
  | array (items : List Json)
  | object (members : List (Option String × Json))
deriving Inhabited, Repr

namespace Json

/-- A text. -/
def text (s : String) : Json := string (some s)

/-- An object from its fields, in order. -/
def record (fields : List (String × Json)) : Json := object (fields.map fun f => (some f.1, f.2))

mutual

/-- How deep arrays and objects are nested. -/
def depth : Json → Nat
  | array items => depthItems items + 1
  | object members => depthMembers members + 1
  | _ => 0

/-- The depth of the deepest item. -/
def depthItems : List Json → Nat
  | [] => 0
  | j :: r => max j.depth (depthItems r)

/-- The depth of the deepest member. -/
def depthMembers : List (Option String × Json) → Nat
  | [] => 0
  | (_, j) :: r => max j.depth (depthMembers r)

end

mutual

/-- Whether every literal of the tree denotes a text and every number is in range. -/
def isPlain : Json → Bool
  | natural n => Decimal.isInRange ⟨false, n, 0⟩
  | decimal d => d.isInRange
  | string s => s.isSome
  | array items => isPlainItems items
  | object members => isPlainMembers members
  | _ => true

/-- Whether every item is plain. -/
def isPlainItems : List Json → Bool
  | [] => true
  | j :: r => j.isPlain && isPlainItems r

/-- Whether every key and every value is plain. -/
def isPlainMembers : List (Option String × Json) → Bool
  | [] => true
  | (k, j) :: r => k.isSome && j.isPlain && isPlainMembers r

end

/-- The members whose keys do not stand again further on. -/
def lastOfEach : List (Option String × Json) → List (Option String × Json)
  | [] => []
  | m :: r => if r.any fun l => l.1 = m.1 then lastOfEach r else m :: lastOfEach r

/-- Members whose keys all differ are all kept. -/
theorem lastOfEach_of_nodup {ms : List (Option String × Json)} (h : (ms.map (·.1)).Nodup) :
    lastOfEach ms = ms := by
  induction ms with
  | nil => rfl
  | cons m r ih =>
    obtain ⟨hm, hr⟩ := List.nodup_cons.mp h
    have none : ¬(r.any fun l => l.1 = m.1) = true := by
      intro hany
      obtain ⟨l, hl, he⟩ := List.any_eq_true.mp hany
      exact hm (List.mem_map.mpr ⟨l, hl, of_decide_eq_true he⟩)
    rw [lastOfEach, if_neg none, ih hr]

mutual

/-- The tree with one member for each key, the last one. -/
def lastWins : Json → Json
  | array items => array (lastWinsItems items)
  | object members => object (lastOfEach (lastWinsMembers members))
  | j => j

/-- The items with one member for each key. -/
def lastWinsItems : List Json → List Json
  | [] => []
  | j :: r => j.lastWins :: lastWinsItems r

/-- The members with one member for each key in their values. -/
def lastWinsMembers : List (Option String × Json) → List (Option String × Json)
  | [] => []
  | (k, j) :: r => (k, j.lastWins) :: lastWinsMembers r

end

end Json
end SealedStore
