import RobotDesk.Text.Glyph
import RobotDesk.Text.Basic

/-!
Percent escapes and form encoding.

A percent escape is `%` and two hexadecimal digits, written in upper case and read in any.  In a
form, a blank is a plus sign, and everything but letters, digits and `*-._` is escaped.  A form is
read from names and values that are divided by `&` and `=`; what is no escape stays as it is.
-/
namespace RobotDesk.Wire

/-- A hexadecimal digit, upper case. -/
def upperHex (n : Nat) : Char := if n < 10 then Char.ofNat (48 + n) else Char.ofNat (55 + n)

def escapeByte (b : UInt8) : List Char :=
  ['%', upperHex (b.toNat / 16), upperHex (b.toNat % 16)]

/-- The value of a hexadecimal digit. -/
def hexValue? (c : Char) : Option Nat :=
  if c.isDigit then some (c.toNat - 48)
  else if 'a' ≤ c ∧ c ≤ 'f' then some (c.toNat - 87)
  else if 'A' ≤ c ∧ c ≤ 'F' then some (c.toNat - 55)
  else none

/-- Escapes the bytes of a character unless it may stay. -/
def escapeChar (stays : Char → Bool) (c : Char) : List Char :=
  if stays c then [c] else (String.utf8EncodeChar c).flatMap escapeByte

/-- Replaces percent escapes by their bytes. -/
def unescape : List Char → List UInt8
  | [] => []
  | c :: cs =>
    match c, cs with
    | '%', h :: l :: rest =>
      match hexValue? h, hexValue? l with
      | some high, some low => UInt8.ofNat (16 * high + low) :: unescape rest
      | _, _ => String.utf8EncodeChar '%' ++ unescape (h :: l :: rest)
    | c, rest => String.utf8EncodeChar c ++ unescape rest
termination_by cs => cs.length

namespace Form

/-- The characters that need no escape in a form. -/
def stays (c : Char) : Bool :=
  c.isAlphanum || c = '*' || c = '-' || c = '.' || c = '_'

def encodeChar (c : Char) : List Char := if c = ' ' then ['+'] else escapeChar stays c

/-- A name or a value as it stands in a form. -/
def encode (s : String) : String := String.ofList (s.toList.flatMap encodeChar)

/-- The name or value that stands in a form. -/
def decode (cs : List Char) : String :=
  Text.shownBytes (unescape (cs.map fun c => if c = '+' then ' ' else c))

/-- The names and values of a form. -/
def pairs (s : String) : List (String × String) :=
  ((Text.splitOn '&' s.toList).filter (!·.isEmpty)).map fun part =>
    (decode (part.takeWhile (· ≠ '=')), decode ((part.dropWhile (· ≠ '=')).drop 1))

end Form
end RobotDesk.Wire
