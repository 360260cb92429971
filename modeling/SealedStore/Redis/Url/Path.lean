import SealedStore.Redis.Url.Host
import SealedStore.Text.Percent
/-!
# Paths and queries of server addresses

A path is the list of its segments, in which those that stand for the same or the parent place have
been carried out.  A query is a list of fields.
-/
namespace SealedStore.Redis.Url

/-- A segment with its dots in plain form. -/
def plainDots : List Char → List Char
  | [] => []
  | '%' :: '2' :: e :: r =>
    if e = 'e' || e = 'E' then '.' :: plainDots r else '%' :: '2' :: plainDots (e :: r)
  | c :: r => c :: plainDots r

/-- The letter of a drive, which has no parent. -/
def isDrive : List Char → Bool
  | [c, m] => c.isAlpha && (m = ':' || m = '|')
  | _ => false

/-- The segments of the parent place, the last segment first. -/
def parent : List (List Char) → List (List Char)
  | [] => []
  | s :: r => if isDrive s then s :: r else r

/-- The place that segments lead to from another, whose last segment stands first.  Where the last
segment is one of dots, an empty one follows the place. -/
def walk (place : List (List Char)) : List (List Char) → List (List Char)
  | [] => place.reverse
  | s :: r =>
    let dots := plainDots s
    if dots = ['.', '.'] then
      if r.isEmpty then ([] :: parent place).reverse else walk (parent place) r
    else if dots = ['.'] then
      if r.isEmpty then ([] :: place).reverse else walk place r
    else walk (s :: place) r

/-- The segments of a path behind its first slash. -/
def segments (cs : List Char) : List (List Char) := walk [] (pieces '/' cs)

/-- Digits, at least one. -/
def isDigits (cs : List Char) : Bool := !cs.isEmpty && cs.all Char.isDigit

/-- Whether a text is an integer of 64 bits. -/
def isInteger : List Char → Bool
  | '-' :: digits => isDigits digits && number digits ≤ Nat.pow 2 63
  | '+' :: digits => isDigits digits && number digits < Nat.pow 2 63
  | digits => isDigits digits && number digits < Nat.pow 2 63

/-- Whether a path is the number of a database between slashes, or nothing but slashes. -/
def isDatabase (path : List (List Char)) : Bool :=
  let inner := (path.dropWhile List.isEmpty).reverse.dropWhile List.isEmpty
  match inner with
  | [] => true
  | [s] => isInteger s
  | _ => false

/-- The last value that a query gives to a name. -/
def queryValue? (name : String) (query : List Char) : Option Bytes :=
  let fields := (pieces '&' query).filterMap fun f =>
    if !f.isEmpty && Text.Percent.decodeForm (f.takeWhile (· ≠ '=')) = Bytes.ofText name then
      some (Text.Percent.decodeForm ((f.dropWhile (· ≠ '=')).drop 1))
    else none
  fields.getLast?

/-- Whether a query asks for no protocol version, or for one that exists. -/
def asksProtocol (query : List Char) : Bool :=
  match queryValue? "protocol" query with
  | none => true
  | some v => (["2", "resp2", "3", "resp3"].map Bytes.ofText).contains v

/-- Whether a query asks for no database, or for one by its number. -/
def asksDatabase (query : List Char) : Bool :=
  match queryValue? "db" query with
  | none => true
  | some v => v.toText?.any fun s => isInteger s.toList

end SealedStore.Redis.Url
