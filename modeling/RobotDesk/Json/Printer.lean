import RobotDesk.Json.Basic

/-!
JSON text.

`render` is the compact form, without blanks.  `pretty` puts each item and member on a line of its
own, indented by two spaces a level, and writes an empty array or object as a pair of brackets.
In strings only quotes, backslashes and characters below U+0020 are escaped.
-/
namespace RobotDesk.Json

/-- A real has a power of ten unless its first digit stands between `10 ^ -5` and `10 ^ 15`, and a
whole one keeps a zero after the point. -/
def realLayout : Number.Layout := ⟨fun first => -5 ≤ first && first < 16, ".0"⟩

def renderNumeral : Numeral → String
  | .int n => if n < 0 then "-" ++ n.natAbs.repr else n.natAbs.repr
  | .real x => realLayout.text x

/-- A hexadecimal digit, lower case. -/
def hexDigit (n : Nat) : Char := if n < 10 then Char.ofNat (48 + n) else Char.ofNat (87 + n)

/-- The spelling of a character inside a string. -/
def escapeChar (c : Char) : List Char :=
  if c = '"' then ['\\', '"']
  else if c = '\\' then ['\\', '\\']
  else if c = '\x08' then ['\\', 'b']
  else if c = '\x0c' then ['\\', 'f']
  else if c = '\n' then ['\\', 'n']
  else if c = '\r' then ['\\', 'r']
  else if c = '\t' then ['\\', 't']
  else if c.toNat < 32 then
    ['\\', 'u', '0', '0', hexDigit (c.toNat / 16), hexDigit (c.toNat % 16)]
  else [c]

def renderString (s : String) : String :=
  "\"" ++ String.ofList (s.toList.flatMap escapeChar) ++ "\""

mutual

/-- The compact text of a value. -/
def render : Json → String
  | .null => "null"
  | .bool true => "true"
  | .bool false => "false"
  | .number n => renderNumeral n
  | .string s => renderString s
  | .array items => "[" ++ renderItems items ++ "]"
  | .object ms => "\x7b" ++ renderMembers ms ++ "\x7d"

def renderItems : List Json → String
  | [] => ""
  | [v] => render v
  | v :: w :: rest => render v ++ "," ++ renderItems (w :: rest)

def renderMembers : List (String × Json) → String
  | [] => ""
  | [(k, v)] => renderString k ++ ":" ++ render v
  | (k, v) :: m :: rest => renderString k ++ ":" ++ render v ++ "," ++ renderMembers (m :: rest)

end

/-- A line break and the indentation of a level. -/
def newline (level : Nat) : String := "\n" ++ String.ofList (List.replicate (2 * level) ' ')

mutual

/-- The text of a value on several lines, at an indentation level. -/
def prettyAt (level : Nat) : Json → String
  | .array [] => "[]"
  | .array (v :: rest) => "[" ++ prettyItems (level + 1) (v :: rest) ++ newline level ++ "]"
  | .object [] => "\x7b\x7d"
  | .object (m :: rest) =>
    "\x7b" ++ prettyMembers (level + 1) (m :: rest) ++ newline level ++ "\x7d"
  | .null => "null"
  | .bool true => "true"
  | .bool false => "false"
  | .number n => renderNumeral n
  | .string s => renderString s

def prettyItems (level : Nat) : List Json → String
  | [] => ""
  | [v] => newline level ++ prettyAt level v
  | v :: w :: rest => newline level ++ prettyAt level v ++ "," ++ prettyItems level (w :: rest)

def prettyMembers (level : Nat) : List (String × Json) → String
  | [] => ""
  | [(k, v)] => newline level ++ renderString k ++ ": " ++ prettyAt level v
  | (k, v) :: m :: rest =>
    newline level ++ renderString k ++ ": " ++ prettyAt level v ++ ","
      ++ prettyMembers level (m :: rest)

end

/-- The text of a value on several lines. -/
def pretty (v : Json) : String := prettyAt 0 v

end RobotDesk.Json
