import RobotDesk.Wire.Form

/-!
Web addresses.

An address is read the way browsers do: blanks and control characters around it and tabs and line
breaks inside it are dropped, a backslash counts as a slash, `.` and `..` segments are resolved, and
what may not stand in a path or query is escaped.  A fragment is dropped.  Only the schemes `http`
and `https` are known.  How the names of hosts are read is a matter of its own, and is left open: an
address is read with respect to a reading of them.
-/
namespace RobotDesk.Wire

/-- A reading of hosts: the host and port that a text names under a scheme, if it names any. -/
structure Hosts where
  read? : (secure : Bool) → String → Option String

/-- No text names a host. -/
def Hosts.none : Hosts := ⟨fun _ _ => Option.none⟩

/-- Every text names a host, case not counting. -/
def Hosts.all : Hosts := ⟨fun _ s => some (String.ofList (s.toList.map Char.toLower))⟩

structure Url where
  secure : Bool
  authority : String
  /-- The segments of the path, escaped. -/
  segments : List String
  query : Option String := none
deriving DecidableEq, Repr, Inhabited

namespace Url

def isSlash (c : Char) : Bool := c = '/' || c = '\\'

/-- Whether a character ends the authority or a path. -/
def endsPath (c : Char) : Bool := c = '?' || c = '#'

/-- The characters that need no escape in a path. -/
def staysInPath (c : Char) : Bool :=
  32 < c.toNat && c.toNat < 127
    && !(c = '"' || c = '#' || c = '<' || c = '>' || c = '?' || c = '\x60' || c = '\x7b'
      || c = '\x7d')

/-- The characters that need no escape in a query. -/
def staysInQuery (c : Char) : Bool :=
  32 < c.toNat && c.toNat < 127 && !(c = '"' || c = '#' || c = '<' || c = '>' || c = '\x27')

/-- Drops what is not looked at: blanks and controls around the text, tabs and breaks inside. -/
def clean (cs : List Char) : List Char :=
  let trim (cs : List Char) := cs.dropWhile (·.toNat ≤ 32)
  (trim (trim cs).reverse).reverse.filter fun c => c ≠ '\t' && c ≠ '\n' && c ≠ '\r'

/-- Whether a segment stands for the place itself. -/
def isHere (segment : List Char) : Bool :=
  let s := segment.map Char.toLower
  s = ['.'] || s = "%2e".toList

/-- Whether a segment stands for the place above. -/
def isAbove (segment : List Char) : Bool :=
  let s := segment.map Char.toLower
  s = "..".toList || s = ".%2e".toList || s = "%2e.".toList || s = "%2e%2e".toList

def escapeSegment (segment : List Char) : String :=
  String.ofList (segment.flatMap (escapeChar staysInPath))

/-- Goes along segments from the place reached so far. -/
def walk (reached : List String) : List (List Char) → List String
  | [] => reached
  | [last] =>
    if isAbove last then reached.dropLast ++ [""]
    else if isHere last then reached ++ [""]
    else reached ++ [escapeSegment last]
  | segment :: next :: rest =>
    if isAbove segment then walk reached.dropLast (next :: rest)
    else if isHere segment then walk reached (next :: rest)
    else walk (reached ++ [escapeSegment segment]) (next :: rest)

/-- The parts of a path between slashes. -/
def parts (path : List Char) : List (List Char) :=
  Text.splitOn '/' (path.map fun c => if c = '\\' then '/' else c)

/-- The query behind a path, escaped. -/
def queryOf (cs : List Char) : Option String :=
  match cs with
  | '?' :: q => some (String.ofList ((q.takeWhile (· ≠ '#')).flatMap (escapeChar staysInQuery)))
  | _ => none

/-- Reads a path, and a query behind it, that start at the root. -/
def ofRoot (secure : Bool) (authority : String) (cs : List Char) : Url where
  secure := secure
  authority := authority
  segments := walk [] (parts ((cs.takeWhile (!endsPath ·)).drop 1))
  query := queryOf (cs.dropWhile (!endsPath ·))

/-- Reads an authority, which is not empty, and what follows it. -/
def ofAuthority? (hosts : Hosts) (secure : Bool) (cs : List Char) : Option Url :=
  let ends (c : Char) : Bool := isSlash c || endsPath c
  let authority := cs.takeWhile (!ends ·)
  if authority.isEmpty then none
  else (hosts.read? secure (String.ofList authority)).map fun host =>
    ofRoot secure host (cs.dropWhile (!ends ·))

/-- The scheme of an address, if it is one of those known, and what follows the colon. -/
def scheme? (cs : List Char) : Option (Bool × List Char) :=
  match cs.dropWhile (· ≠ ':') with
  | _ :: rest =>
    let scheme := (cs.takeWhile (· ≠ ':')).map Char.toLower
    if scheme = "http".toList then some (false, rest)
    else if scheme = "https".toList then some (true, rest)
    else none
  | [] => none

/-- The address that a text spells, if it spells one. -/
def ofText? (hosts : Hosts) (s : String) : Option Url :=
  match scheme? (clean s.toList) with
  | some (secure, rest) => ofAuthority? hosts secure (rest.dropWhile isSlash)
  | none => none

/-- The address that a reference leads to from another address. -/
def resolve? (hosts : Hosts) (base : Url) (reference : String) : Option Url :=
  let cs := clean reference.toList
  match scheme? cs with
  | some (secure, rest) => ofAuthority? hosts secure (rest.dropWhile isSlash)
  | none =>
    match cs with
    | [] => some base
    | c :: rest =>
      if isSlash c then
        if rest.head?.any isSlash then ofAuthority? hosts base.secure (rest.dropWhile isSlash)
        else some (ofRoot base.secure base.authority cs)
      else if c = '?' then some { base with query := queryOf cs }
      else if c = '#' then some base
      else
        let path := cs.takeWhile (!endsPath ·)
        some { base with
          segments := walk base.segments.dropLast (parts path)
          query := queryOf (cs.dropWhile (!endsPath ·)) }

def path (u : Url) : String := String.join (u.segments.map ("/" ++ ·))

/-- The path and the query, as a request names them. -/
def target (u : Url) : String :=
  u.path ++ match u.query with
    | some q => "?" ++ q
    | none => ""

/-- The address with one more parameter in its query. -/
def withParameter (u : Url) (name value : String) : Url :=
  let parameter := Form.encode name ++ "=" ++ Form.encode value
  { u with query := match u.query with
    | some q => if q.isEmpty then some parameter else some (q ++ "&" ++ parameter)
    | none => some parameter }

end Url
end RobotDesk.Wire
