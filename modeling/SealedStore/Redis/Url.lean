import SealedStore.Redis.Url.Path
/-!
# Server addresses

Which texts name a server: `redis://`, an optional user and password, a host, an optional port, an
optional database number and an optional protocol version; or, on this machine, the path of a socket
behind `unix:` or `redis+unix:`.
-/
namespace SealedStore.Redis

/-- An address taken apart. -/
structure Url where
  scheme : String
  /-- What stands in front of the host. -/
  user : List Char
  /-- Empty where there is none. -/
  host : List Char
  /-- The segments behind the first slash, if there is one. -/
  path : Option (List (List Char))
  query : List Char
deriving DecidableEq

namespace Url

/-- Whether a character is dropped from both ends of an address. -/
def isEdge (c : Char) : Bool := c.toNat ≤ 32

/-- Whether a character is dropped wherever it stands. -/
def isBreak (c : Char) : Bool := c = '\t' || c = '\n' || c = '\r'

/-- The characters of an address that count. -/
def clean (s : String) : List Char :=
  (((s.toList.dropWhile isEdge).reverse.dropWhile isEdge).reverse).filter fun c => !isBreak c

/-- Whether a character may stand in a scheme. -/
def isSchemeChar (c : Char) : Bool := c.isAlphanum || c = '+' || c = '-' || c = '.'

/-- The scheme in lower case, and what follows its colon. -/
def splitScheme (cs : List Char) : Option (String × List Char) :=
  match cs with
  | c :: _ =>
    if c.isAlpha then
      match cs.dropWhile isSchemeChar with
      | ':' :: rest => some (String.ofList ((cs.takeWhile isSchemeChar).map Char.toLower), rest)
      | _ => none
    else none
  | [] => none

/-- The part up to the last `@`, and what follows it. -/
def splitUser (cs : List Char) : Option (List Char) × List Char :=
  let host := (cs.reverse.takeWhile (· ≠ '@')).reverse
  if cs.contains '@' then (some (cs.take (cs.length - host.length - 1)), host) else (none, cs)

/-- The segments of a path, of which the first slash may be left out. -/
def pathOf : List Char → Option (List (List Char))
  | [] => none
  | '/' :: r => some (segments r)
  | r => some (segments r)

/-- An address taken apart.  A user without a host is refused, unless user and password are empty;
so is an address without any slash. -/
def read? (s : String) : Option Url := do
  let (scheme, cs) ← splitScheme (clean s)
  let cs := cs.takeWhile (· ≠ '#')
  let body := cs.takeWhile (· ≠ '?')
  let query := (cs.drop body.length).drop 1
  match body with
  | '/' :: '/' :: r =>
    let authority := r.takeWhile (· ≠ '/')
    let (user, site) := splitUser authority
    let host := hostOf site
    let rest ← behindPort? (site.drop host.length)
    guard (isHost host || (site.isEmpty && user.all (· = [':'])))
    some ⟨scheme, user.getD [], host, pathOf (rest ++ r.drop authority.length), query⟩
  | '/' :: r => some ⟨scheme, [], [], some (segments r), query⟩
  | _ => none

/-- Whether the name and the password of a user are texts. -/
def isUser (user : List Char) : Bool :=
  let parts := [user.takeWhile (· ≠ ':'), (user.dropWhile (· ≠ ':')).drop 1]
  parts.all fun p => (Text.Percent.decode p).toText?.isSome

/-- Whether an address names a server on a network. -/
def isNetwork (u : Url) : Bool :=
  !u.host.isEmpty && isUser u.user && u.path.all isDatabase && asksProtocol u.query

/-- Whether an address names a socket on this machine. -/
def isSocket (u : Url) : Bool :=
  (u.host.isEmpty || u.host = "localhost".toList) && u.path.isSome && asksDatabase u.query &&
    asksProtocol u.query

/-- Whether an address names a server. -/
def isServer (u : Url) : Bool :=
  if u.scheme = "redis" then u.isNetwork
  else (u.scheme = "unix" || u.scheme = "redis+unix") && u.isSocket

/-- Whether a text names a server. -/
def isValid (s : String) : Bool := (read? s).any isServer

end Url
end SealedStore.Redis
