/-!
Media types, as a content type gives them.

A media type is two tokens divided by a slash, and parameters after semicolons.  Blanks may stand
before a parameter and behind a quoted value.  A quoted value has at least one character, and its
first one may be a quote itself; the next quote ends it.  Case does not count in the tokens and in
the names of parameters.
-/
namespace RobotDesk.Wire

/-- The characters of a token. -/
def isTokenChar (c : Char) : Bool := c.isAlphanum || "!#$%&'*+-.^_\x60|~".toList.contains c

structure MediaType where
  type : String
  subtype : String
  parameters : List (String × String) := []
deriving DecidableEq, Repr

namespace MediaType

/-- The characters between quotes. -/
def isQuotable (c : Char) : Bool := 32 ≤ c.toNat && c.toNat < 127

def lower (cs : List Char) : String := String.ofList (cs.map Char.toLower)

/-- What may follow a quoted value: blanks, and then a semicolon or the end. -/
def afterQuoted (cs : List Char) : Option (List Char) :=
  match cs.dropWhile (· = ' ') with
  | [] => some []
  | ';' :: rest => some rest
  | _ => none

/-- A quoted value behind its first quote, and what follows its semicolon. -/
def quoted? : List Char → Option (List Char × List Char)
  | [] => none
  | c :: cs =>
    let inner := fun c => isQuotable c && c ≠ '"'
    match cs.dropWhile inner with
    | '"' :: rest =>
      if isQuotable c then (afterQuoted rest).map fun r => (c :: cs.takeWhile inner, r) else none
    | _ => none

/-- The value of a parameter, and what follows its semicolon.  Only the last value may be empty. -/
def value? : List Char → Option (List Char × List Char)
  | '"' :: cs => quoted? cs
  | cs =>
    match cs.takeWhile isTokenChar, cs.dropWhile isTokenChar with
    | value, [] => some (value, [])
    | [], _ => none
    | value, ';' :: rest => some (value, rest)
    | _, _ => none

/-- A parameter, and what follows its semicolon. -/
def parameter? (cs : List Char) : Option ((String × String) × List Char) :=
  match cs.takeWhile isTokenChar, cs.dropWhile isTokenChar with
  | [], _ => none
  | name, '=' :: rest => (value? rest).map fun (v, r) => ((lower name, String.ofList v), r)
  | _, _ => none

/-- The parameters in a text; each takes at least one character. -/
def parameters? : Nat → List Char → Option (List (String × String))
  | fuel, cs =>
    match fuel, cs.dropWhile (· = ' ') with
    | _, [] => some []
    | 0, _ => none
    | fuel + 1, cs => do
      let (p, rest) ← parameter? cs
      return p :: (← parameters? fuel rest)

/-- Reads a media type. -/
def ofText? (s : String) : Option MediaType :=
  match s.toList.takeWhile isTokenChar, s.toList.dropWhile isTokenChar with
  | [], _ => none
  | type, '/' :: cs =>
    let subtype := cs.takeWhile isTokenChar
    match cs.dropWhile isTokenChar with
    | [] => some ⟨lower type, lower subtype, []⟩
    | ';' :: rest =>
      if subtype.isEmpty then none
      else (parameters? rest.length rest).map fun ps => ⟨lower type, lower subtype, ps⟩
    | _ => none
  | _, _ => none

/-- The parts of a subtype before and after its last plus sign, unless it starts with that. -/
def splitPlus (token : List Char) : List Char × List Char :=
  let back := token.reverse
  match back.dropWhile (· ≠ '+') with
  | [] => (token, [])
  | [_] => (token, [])
  | _ :: front => (front.reverse, (back.takeWhile (· ≠ '+')).reverse)

/-- Whether a media type says JSON: its subtype is `json` up to a plus sign, or after one. -/
def isJson (m : MediaType) : Bool :=
  let (base, suffix) := splitPlus m.subtype.toList
  m.type = "application" && (base = "json".toList || suffix = "json".toList)

end MediaType
end RobotDesk.Wire
