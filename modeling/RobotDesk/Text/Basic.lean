/-!
Texts: their blanks, what occurs in them, and the parts and lines they are cut into.

A character is blank when it has the Unicode property `White_Space`.  A text is blank when all of
its characters are, the empty text included.
-/
namespace RobotDesk.Text

/-- The code points with the property `White_Space`, as closed ranges in increasing order. -/
def blankRanges : List (Nat × Nat) :=
  [(0x9, 0xd), (0x20, 0x20), (0x85, 0x85), (0xa0, 0xa0), (0x1680, 0x1680), (0x2000, 0x200a),
   (0x2028, 0x2029), (0x202f, 0x202f), (0x205f, 0x205f), (0x3000, 0x3000)]

def isBlank (c : Char) : Bool :=
  blankRanges.any fun (low, high) => low ≤ c.toNat && c.toNat ≤ high

/-- Whether nothing is left of a text once blanks are taken off its ends. -/
def isBlankText (s : String) : Bool := s.toList.all isBlank

/-- Drops leading blanks. -/
def skipBlanks (cs : List Char) : List Char := cs.dropWhile isBlank

theorem skipBlanks_cons_of_not {c : Char} (h : isBlank c = false) (cs : List Char) :
    skipBlanks (c :: cs) = c :: cs := by simp [skipBlanks, h]

/-- Whether one list of characters occurs inside another. -/
def occursIn (part : List Char) : List Char → Bool
  | [] => part.isEmpty
  | c :: cs => part.isPrefixOf (c :: cs) || occursIn part cs

theorem occursIn_append (before part after : List Char) :
    occursIn part (before ++ (part ++ after)) = true := by
  induction before with
  | nil =>
    cases hwhole : part ++ after with
    | nil => simp [occursIn, (List.append_eq_nil_iff.mp hwhole).1]
    | cons c cs =>
      have hstart : part.isPrefixOf (c :: cs) = true := by
        rw [← hwhole, List.isPrefixOf_iff_prefix]
        exact List.prefix_append part after
      simp [occursIn, hstart]
  | cons c cs ih => simp [occursIn, ih]

/-- Whether a text occurs inside another. -/
def contains (whole part : String) : Bool := occursIn part.toList whole.toList

/-- The parts of a text between separators. -/
def splitOn (separator : Char) : List Char → List (List Char)
  | [] => [[]]
  | c :: cs =>
    if c = separator then [] :: splitOn separator cs
    else match splitOn separator cs with
      | part :: parts => (c :: part) :: parts
      | [] => [[c]]

/-- A line without the carriage return before its end. -/
def dropReturn (cs : List Char) : List Char :=
  if cs.getLast? = some '\r' then cs.dropLast else cs

/-- Lines from the parts between line breaks; nothing behind the last break is no line. -/
def linesOfParts : List (List Char) → List String
  | [] => []
  | [last] => if last.isEmpty then [] else [String.ofList last]
  | part :: parts => String.ofList (dropReturn part) :: linesOfParts parts

/-- The lines of a text. -/
def lines (s : String) : List String := linesOfParts (splitOn '\n' s.toList)

end RobotDesk.Text
