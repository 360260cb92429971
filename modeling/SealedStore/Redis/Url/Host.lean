/-!
# Hosts in server addresses

A host is a name, in which some characters may not stand, or an IPv6 address in brackets: eight
groups of hexadecimal digits, of which two colons in a row leave out some, and the last two of which
may be written as an IPv4 address.
-/
namespace SealedStore.Redis.Url

/-- The pieces of a text between separators. -/
def pieces (sep : Char) : List Char → List (List Char)
  | [] => [[]]
  | c :: r =>
    if c = sep then [] :: pieces sep r
    else match pieces sep r with
      | p :: ps => (c :: p) :: ps
      | [] => [[c]]

/-- The number that digits stand for. -/
def number (cs : List Char) : Nat := cs.foldl (fun n c => n * 10 + (c.toNat - 48)) 0

/-- Whether a character may not stand in a name. -/
def isForbidden (c : Char) : Bool :=
  [0, 9, 10, 13, 32, 35, 47, 58, 60, 62, 63, 64, 91, 92, 93, 94, 124].contains c.toNat

/-- A hexadecimal digit. -/
def isHexDigit (c : Char) : Bool := c.isDigit || ('a' ≤ c && c ≤ 'f') || ('A' ≤ c && c ≤ 'F')

/-- A number below 256 without zeros in front. -/
def isOctet (cs : List Char) : Bool :=
  !cs.isEmpty && cs.length ≤ 3 && cs.all Char.isDigit && (cs.head? ≠ some '0' || cs.length = 1) &&
    number cs < 256

/-- Four octets between points. -/
def isAddress4 (cs : List Char) : Bool := (pieces '.' cs).length = 4 && (pieces '.' cs).all isOctet

/-- Whether a text makes `left` groups, or fewer if some have been left out. -/
def isGroups : (left : Nat) → (leftOut : Bool) → List Char → Bool
  | left, leftOut, [] => leftOut || left = 0
  | 0, _, _ :: _ => false
  | left + 1, leftOut, c :: r =>
    if c = ':' then !leftOut && isGroups left true r
    else
      let digits := ((c :: r).take 4).takeWhile isHexDigit
      match (c :: r).drop digits.length with
      | [] => leftOut || left = 0
      | d :: rest =>
        if d = ':' then !rest.isEmpty && isGroups left leftOut rest
        else d = '.' && isAddress4 (c :: r) && (left = 1 || (leftOut && 1 < left))

/-- Whether a text is an IPv6 address. -/
def isAddress6 : List Char → Bool
  | ':' :: r => r.head? = some ':' && isGroups 7 true (r.drop 1)
  | cs => isGroups 8 false cs

/-- Whether a text is a host. -/
def isHost : List Char → Bool
  | '[' :: r => r.getLast? = some ']' && isAddress6 r.dropLast
  | cs => !cs.isEmpty && cs.all fun c => !isForbidden c

/-- The host in front of a port: up to a colon that stands behind the brackets. -/
def hostOf (cs : List Char) : List Char :=
  match cs with
  | '[' :: _ =>
    let inner := cs.takeWhile (· ≠ ']')
    cs.take (inner.length + 1)
  | _ => cs.takeWhile (· ≠ ':')

/-- What follows a port of sixteen bits; a backslash may end it. -/
def behindPort? : List Char → Option (List Char)
  | [] => some []
  | ':' :: r =>
    let rest := r.dropWhile Char.isDigit
    if number (r.takeWhile Char.isDigit) < 65536 && (rest.head?.all (· = '\\')) then
      some rest else none
  | _ => none

end SealedStore.Redis.Url
