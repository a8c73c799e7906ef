/-!
Request targets: what a request to the service is addressed to.

A target is a path with a query, a whole address with scheme and authority, an authority alone, or
an asterisk.  A fragment is dropped unseen.  `ofText?` accepts more than the grammar of addresses:
a path may have quotes, curly brackets and any character beyond ASCII.
-/
namespace RobotDesk.Endpoint

/-- A path, and a query if there is one. -/
structure Locator where
  path : String
  query : Option String := none
deriving DecidableEq, Repr

inductive Target where
  | origin (place : Locator)
  | absolute (scheme authority : String) (place : Locator)
  | authority (name : String)
  | asterisk
deriving DecidableEq, Repr

namespace Locator

/-- Whether a character may stand in a path. -/
def allowsInPath (c : Char) : Bool :=
  c.isAlphanum || 127 < c.toNat || "!$%&'()*+,-./:;=@[\\]^_|~\"\x7b\x7d".toList.contains c

/-- Whether a character may stand in a query. -/
def allowsInQuery (c : Char) : Bool :=
  c.isAlphanum || 127 < c.toNat || "!$%&'()*+,-./:;=?@[\\]^_\x60\x7b|\x7d~".toList.contains c

/-- Reads a path and a query, up to the end or to a fragment. -/
def ofChars? (cs : List Char) : Option Locator :=
  let path := cs.takeWhile fun c => c ≠ '?' && c ≠ '#'
  if !path.all allowsInPath then none
  else match cs.dropWhile fun c => c ≠ '?' && c ≠ '#' with
    | '?' :: rest =>
      let query := rest.takeWhile (· ≠ '#')
      if query.all allowsInQuery then some ⟨String.ofList path, some (String.ofList query)⟩
      else none
    | _ => some ⟨String.ofList path, none⟩

end Locator

/-- What has been seen of an authority. -/
structure Survey where
  /-- The colons since the last `@` or closing bracket. -/
  colons : Nat := 0
  opened : Bool := false
  closed : Bool := false
  /-- Whether a percent sign stands where none is forgiven so far. -/
  escaped : Bool := false
  /-- Whether an `@` was the last character. -/
  nameless : Bool := false
deriving DecidableEq, Repr

namespace Survey

/-- Takes up a character of an authority.  Brackets stand around one part only, percent signs before
an `@` or inside the brackets. -/
def step (s : Survey) (c : Char) : Option Survey :=
  let s := { s with nameless := c = '@' }
  if c = ':' then if s.colons < 8 then some { s with colons := s.colons + 1 } else none
  else if c = '[' then if s.escaped || s.opened then none else some { s with opened := true }
  else if c = ']' then
    if !s.opened || s.closed then none
    else some { s with closed := true, colons := 0, escaped := false }
  else if c = '@' then some { s with colons := 0, escaped := false }
  else if c = '%' then some { s with escaped := true }
  else if c.isAlphanum || "!$&'()*+,-.;=_~".toList.contains c then some s
  else none

/-- Whether an authority may end here. -/
def isComplete (s : Survey) : Bool :=
  s.opened = s.closed && s.colons ≤ 1 && !s.nameless && !s.escaped

end Survey

namespace Target

def endsAuthority (c : Char) : Bool := c = '/' || c = '?' || c = '#'

/-- Reads an authority, which may be empty; what follows it starts a path, a query or a fragment. -/
def authority? (cs : List Char) : Option (String × List Char) := do
  let name := cs.takeWhile (!endsAuthority ·)
  let survey ← name.foldlM Survey.step {}
  if survey.isComplete then
    some (String.ofList name, cs.dropWhile (!endsAuthority ·))
  else none

/-- The characters of a scheme: those of the grammar, and the tilde. -/
def isSchemeChar (c : Char) : Bool := c.isAlphanum || "+-.~".toList.contains c

/-- The scheme of a whole address, and what follows its two slashes. -/
def scheme? (cs : List Char) : Option (List Char × List Char) :=
  match cs.dropWhile isSchemeChar with
  | ':' :: '/' :: '/' :: rest => some (cs.takeWhile isSchemeChar, rest)
  | _ => none

/-- Reads a whole address, or an authority that nothing follows. -/
def ofAddress? (cs : List Char) : Option Target := do
  match scheme? cs with
  | some (scheme, cs) =>
    let (name, rest) ← authority? cs
    if 64 < scheme.length || name.isEmpty then none
    else return .absolute (String.ofList scheme) name (← Locator.ofChars? rest)
  | none =>
    let (name, rest) ← authority? cs
    if rest.isEmpty then some (.authority name) else none

/-- The largest size of a target, in bytes. -/
def sizeLimit : Nat := 65534

/-- Reads a target. -/
def ofText? (s : String) : Option Target :=
  if sizeLimit < s.utf8ByteSize then none
  else match s.toList with
    | [] => none
    | ['*'] => some .asterisk
    | '/' :: cs => (Locator.ofChars? ('/' :: cs)).map .origin
    | cs => ofAddress? cs

/-- The path that a resource is looked up by; an authority alone has none. -/
def path : Target → String
  | .origin place => place.path
  | .absolute _ _ place => if place.path.isEmpty then "/" else place.path
  | .authority _ => ""
  | .asterisk => "*"

def query : Target → String
  | .origin place | .absolute _ _ place => place.query.getD ""
  | _ => ""

end Target
end RobotDesk.Endpoint
