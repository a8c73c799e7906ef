import RobotDesk.Time.Calendar

/-!
Timestamps in universal time, to the nanosecond.

A timestamp is a day number, a second of that day, and nanoseconds.  A leap second is told by
nanoseconds from `10 ^ 9` on, in the last second of a minute.  Timestamps run from the first day of
the year -262143 to the last day of the year 262142.

Adding a duration to a timestamp inside a leap second either stays in it, or leaves it: forwards it
counts as the second before it, backwards as the second after it.
-/
namespace RobotDesk.Time

structure Timestamp where
  day : Int
  second : Nat
  nano : Nat
deriving DecidableEq, Repr, Inhabited

/-- Nanoseconds in a second. -/
def nanosPerSecond : Nat := 1000000000

/-- A duration in nanoseconds. -/
abbrev Duration := Int

def milliseconds (n : Int) : Duration := n * 1000000

def seconds (n : Int) : Duration := n * 1000000000

namespace Timestamp

def firstDay : Int := (Date.mk (-262143) 1 1).number
def lastDay : Int := (Date.mk 262142 12 31).number

/-- The latest timestamp. -/
def latest : Timestamp := ⟨lastDay, 86399, 999999999⟩

def dayInRange (day : Int) : Bool := firstDay ≤ day && day ≤ lastDay

def isLeap (t : Timestamp) : Bool := nanosPerSecond ≤ t.nano

/-- The order of timestamps: by day, by second, by nanosecond. -/
def compare (a b : Timestamp) : Ordering :=
  (Ord.compare a.day b.day).then ((Ord.compare a.second b.second).then (Ord.compare a.nano b.nano))

def before (a b : Timestamp) : Bool := a.compare b = .lt

/-- The second and the nanoseconds, not yet brought into their ranges, after adding a duration. -/
def shifted (t : Timestamp) (d : Duration) : Int × Int :=
  let whole := d.tdiv nanosPerSecond
  let part := d.tmod nanosPerSecond
  let leaves := 0 < whole ∨ (0 < part ∧ 2 * (nanosPerSecond : Int) ≤ t.nano + part)
  if t.isLeap then
    if leaves then (t.second + whole, t.nano - nanosPerSecond + part)
    else (t.second + 1 + whole, t.nano - nanosPerSecond + part)
  else (t.second + whole, t.nano + part)

/-- Whether a duration stays inside the leap second. -/
def staysInLeap (t : Timestamp) (d : Duration) : Bool :=
  t.isLeap && d.tdiv nanosPerSecond = 0
    && !(0 < d.tmod nanosPerSecond
      && 2 * (nanosPerSecond : Int) ≤ t.nano + d.tmod nanosPerSecond)

/-- The timestamp a duration later, unless it leaves the range. -/
def add? (t : Timestamp) (d : Duration) : Option Timestamp :=
  if t.staysInLeap d then
    some { t with nano := (t.nano + d.tmod nanosPerSecond).toNat }
  else
    let (second, nano) := t.shifted d
    let total := second + nano / nanosPerSecond
    let day := t.day + total / 86400
    if dayInRange day then
      some ⟨day, (total % 86400).toNat, (nano % nanosPerSecond).toNat⟩
    else none

/-- The duration from one timestamp to another.  A leap second counts when it lies between. -/
def since (a b : Timestamp) : Duration :=
  let days := (a.day - b.day) * 86400
  let whole := (a.second : Int) - b.second
  let leap : Int :=
    if b.second < a.second then (if b.isLeap then 1 else 0)
    else if a.second < b.second then (if a.isLeap then -1 else 0)
    else 0
  seconds (days + whole + leap) + ((a.nano : Int) - b.nano)

/-- At least `width` digits of a number. -/
def padded (width n : Nat) : String :=
  let digits := n.repr
  String.ofList (List.replicate (width - digits.length) '0') ++ digits

/-- A year has four digits, and a sign if it lies outside 0 to 9999. -/
def yearText (year : Int) : String :=
  if 0 ≤ year ∧ year ≤ 9999 then padded 4 year.toNat
  else (if year < 0 then "-" else "+") ++ padded 4 year.natAbs

def dateText (t : Timestamp) : String :=
  let d := Date.ofNumber t.day
  yearText d.year ++ "-" ++ padded 2 d.month ++ "-" ++ padded 2 d.day

/-- The time of day; a leap second has the number 60. -/
def clockText (t : Timestamp) : String :=
  padded 2 (t.second / 3600) ++ ":" ++ padded 2 (t.second / 60 % 60) ++ ":"
    ++ padded 2 (t.second % 60 + t.nano / nanosPerSecond)

/-- The fraction of a second, in as few of 0, 3, 6 or 9 digits as are exact. -/
def fractionText (t : Timestamp) : String :=
  let n := t.nano % nanosPerSecond
  if n = 0 then ""
  else if n % 1000000 = 0 then "." ++ padded 3 (n / 1000000)
  else if n % 1000 = 0 then "." ++ padded 6 (n / 1000)
  else "." ++ padded 9 n

/-- The full text of a timestamp. -/
def text (t : Timestamp) : String := t.dateText ++ "T" ++ t.clockText ++ t.fractionText ++ "Z"

/-- Date and time of day for people, without the fraction. -/
def shortText (t : Timestamp) : String := t.dateText ++ " " ++ t.clockText

end Timestamp
end RobotDesk.Time
