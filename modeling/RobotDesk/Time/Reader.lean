import RobotDesk.Json.Codec
import RobotDesk.Text.Basic
import RobotDesk.Time.Timestamp

/-!
Reading timestamps.

Three readers, from a shared set of pieces.  `lenient?` allows blanks between the parts, fields of
one digit, signed years, and several spellings of the offset, but needs an offset.  `strict?` is the
internet form of a date and time with an offset.  `local?` has no offset and is taken as universal
time; it allows fields of one digit, signed years and blanks before numbers.  Orchestrator records
are read by `received?`: the strict form, and else the one without an offset.

In all three the second may be 60, and digits of a fraction beyond the ninth are dropped.
-/
namespace RobotDesk.Time

open Text

/-- Date and time of day as written, the offset not yet taken off. -/
structure Written where
  date : Date
  hour : Nat
  minute : Nat
  second : Nat
  nano : Nat
deriving DecidableEq, Repr

namespace Written

/-- The timestamp of what is written at an offset in seconds, if there is such a time. -/
def at? (w : Written) (offset : Int) : Option Timestamp :=
  if w.date.exists? && Timestamp.dayInRange w.date.number && w.hour ≤ 23 && w.minute ≤ 59
      && w.second ≤ 60 && -86400 < offset && offset < 86400 then
    let leap := if w.second = 60 then 1 else 0
    let total : Int := (w.hour * 3600 + w.minute * 60 + (w.second - leap) : Nat) - offset
    let day := w.date.number + total / 86400
    if Timestamp.dayInRange day then
      some ⟨day, (total % 86400).toNat, leap * nanosPerSecond + w.nano⟩
    else none
  else none

end Written

namespace Reading

def ofDigits (ds : List Char) : Nat := ds.foldl (fun n c => 10 * n + (c.toNat - 48)) 0

/-- A number of at most so many digits. -/
def digits? (most : Nat) (cs : List Char) : Option (Nat × List Char) :=
  let ds := (cs.take most).takeWhile Char.isDigit
  if ds.isEmpty then none else some (ofDigits ds, cs.drop ds.length)

/-- A number of exactly so many digits. -/
def exactly? (count : Nat) (cs : List Char) : Option (Nat × List Char) :=
  let ds := (cs.take count).takeWhile Char.isDigit
  if ds.length = count then some (ofDigits ds, cs.drop count) else none

/-- A number of any length. -/
def unbounded? (cs : List Char) : Option (Nat × List Char) :=
  let ds := cs.takeWhile Char.isDigit
  if ds.isEmpty then none else some (ofDigits ds, cs.drop ds.length)

/-- A year: four digits at most, or a sign and any number of digits. -/
def year? (cs : List Char) : Option (Int × List Char) :=
  match skipBlanks cs with
  | '-' :: r => (unbounded? r).map fun (n, r) => (-(n : Int), r)
  | '+' :: r => (unbounded? r).map fun (n, r) => ((n : Int), r)
  | r => (digits? 4 r).map fun (n, r) => ((n : Int), r)

/-- A field of one or two digits behind blanks. -/
def field? (cs : List Char) : Option (Nat × List Char) := digits? 2 (skipBlanks cs)

def expect? (c : Char) : List Char → Option (List Char)
  | [] => none
  | d :: r => if c = d then some r else none

/-- A point and digits, of which nine count, if there is a point. -/
def fraction? (cs : List Char) : Option (Nat × List Char) :=
  match cs with
  | '.' :: r =>
    let ds := r.takeWhile Char.isDigit
    if ds.isEmpty then none
    else
      let kept := ds.take 9
      some (ofDigits kept * Number.tenTo (9 - kept.length), r.drop ds.length)
  | _ => some (0, cs)

/-- The mark between date and time of day. -/
def separator? : List Char → Option (List Char)
  | c :: r => if c = 't' ∨ c = 'T' ∨ c = ' ' then some r else none
  | [] => none

/-- The typographic minus sign, U+2212. -/
def minusSign : Char := Char.ofNat 0x2212

/-- An offset in seconds: `Z`, or a sign, hours and minutes, with `gap` taking what may stand
between them. -/
def offset? (gap : List Char → Option (List Char)) (cs : List Char) : Option (Int × List Char) :=
  match cs with
  | [] => none
  | c :: r =>
    if c = 'Z' ∨ c = 'z' then some (0, r)
    else if c = '+' ∨ c = '-' ∨ c = minusSign then do
      let (hours, r) ← exactly? 2 r
      let (minutes, r) ← exactly? 2 (← gap r)
      if 60 ≤ minutes then none
      else
        let size : Int := hours * 3600 + minutes * 60
        return (if c = '+' then size else -size, r)
    else none

/-- The lenient date and time of day. -/
def lenientParts? (cs : List Char) : Option (Written × List Char) := do
  let (year, r) ← year? cs
  let (month, r) ← field? (← expect? '-' (skipBlanks r))
  let (day, r) ← field? (← expect? '-' (skipBlanks r))
  let (hour, r) ← field? (← separator? r)
  let (minute, r) ← field? (← expect? ':' (skipBlanks r))
  let (second, r) ← field? (← expect? ':' (skipBlanks r))
  let (nano, r) ← fraction? r
  return (⟨⟨year, month, day⟩, hour, minute, second, nano⟩, r)

/-- The strict date and time of day. -/
def strictParts? (cs : List Char) : Option (Written × List Char) := do
  let (year, r) ← exactly? 4 cs
  let (month, r) ← exactly? 2 (← expect? '-' r)
  let (day, r) ← exactly? 2 (← expect? '-' r)
  let (hour, r) ← exactly? 2 (← separator? r)
  let (minute, r) ← exactly? 2 (← expect? ':' r)
  let (second, r) ← exactly? 2 (← expect? ':' r)
  let (nano, r) ← fraction? r
  return (⟨⟨year, month, day⟩, hour, minute, second, nano⟩, r)

/-- The date and time of day of the form without an offset. -/
def localParts? (cs : List Char) : Option (Written × List Char) := do
  let (year, r) ← year? cs
  let (month, r) ← field? (← expect? '-' r)
  let (day, r) ← field? (← expect? '-' r)
  let (hour, r) ← field? (← expect? 'T' r)
  let (minute, r) ← field? (← expect? ':' r)
  let (second, r) ← field? (← expect? ':' r)
  let (nano, r) ← fraction? r
  return (⟨⟨year, month, day⟩, hour, minute, second, nano⟩, r)

/-- The lenient spellings of an offset. -/
def lenientOffset? (cs : List Char) : Option (Int × List Char) :=
  if (cs.take 3).map Char.toUpper = "UTC".toList then some (0, cs.drop 3)
  else offset? (fun r => some (r.dropWhile fun c => c = ':' || isBlank c)) cs

end Reading

namespace Timestamp

open Reading

def lenient? (s : String) : Option Timestamp := do
  let (w, r) ← lenientParts? s.toList
  let (offset, r) ← lenientOffset? (skipBlanks r)
  if (skipBlanks r).isEmpty then w.at? offset else none

def strict? (s : String) : Option Timestamp := do
  let (w, r) ← strictParts? s.toList
  let (offset, r) ← offset? (expect? ':') r
  if r.isEmpty then w.at? offset else none

def local? (s : String) : Option Timestamp := do
  let (w, r) ← localParts? s.toList
  if r.isEmpty then w.at? 0 else none

/-- A timestamp of an orchestrator record. -/
def received? (s : String) : Option Timestamp := (strict? s).orElse fun _ => local? s

/-- In JSON a timestamp is a string, written in full and read leniently. -/
def codec : Json.Codec Timestamp := .spelled lenient? text

end Timestamp
end RobotDesk.Time
