/-!
Coloured text for terminals.

A style is switched on by an escape sequence before a text and off by another one after it.  Where
the text itself switches styles off, its own style is switched on again.
-/
namespace RobotDesk.CommandLine

inductive Style where
  | bold
  | dimmed
  | red
  | green
  | yellow
  | cyan
deriving DecidableEq, Repr

def Style.code : Style → String
  | .bold => "1"
  | .dimmed => "2"
  | .red => "31"
  | .green => "32"
  | .yellow => "33"
  | .cyan => "36"

def styleOff : String := "\x1b[0m"

/-- Puts a text behind each place where styles are switched off. -/
def restyle (on : List Char) : Nat → List Char → List Char
  | 0, cs => cs
  | _, [] => []
  | fuel + 1, c :: cs =>
    if styleOff.toList.isPrefixOf (c :: cs) then
      styleOff.toList ++ on ++ restyle on fuel (cs.drop (styleOff.length - 1))
    else c :: restyle on fuel cs

/-- A text in some styles, or as it is when there are no colours. -/
def paint (color : Bool) (styles : List Style) (text : String) : String :=
  if color then
    let on := "\x1b[" ++ ";".intercalate (styles.map Style.code) ++ "m"
    on ++ String.ofList (restyle on.toList text.length text.toList) ++ styleOff
  else text

end RobotDesk.CommandLine
