import RobotDesk.Number.Binary64

/-!
Decimal text of binary64 numbers.

`shortest` gives the fewest digits that still round to a magnitude, and of those the nearest; a tie
goes to the even digit.  The search tries one digit, then two, and so on: on each grid only the two
neighbours of the magnitude have to be tested.  `Layout` holds the choices that a format makes.
-/
namespace RobotDesk.Number

/-- The decimal `digits * 10 ^ exponent`. -/
structure Decimal where
  digits : Nat
  exponent : Int
deriving DecidableEq, Repr

/-- The `e` with `10 ^ e ≤ u / 2 ^ 1074 < 10 ^ (e + 1)`, for a positive number of units. -/
def decimalExponent (u : Nat) : Int :=
  ((u * tenTo 400 / twoTo 1074).repr.length : Int) - 401

/-- `n * 10 ^ e` and `m` brought to a common whole scale. -/
def align (n m : Nat) (e : Int) : Nat × Nat :=
  if 0 ≤ e then (n * tenTo e.toNat, m) else (n, m * tenTo (-e).toNat)

/-- Whether `c * 10 ^ e` rounds to the magnitude with this rank. -/
def roundsTo (rank c : Nat) (e : Int) : Bool :=
  let twice := 2 * c * twoTo 1074
  let low := align twice (units (rank - 1) + units rank) e
  let high := align twice (units rank + units (rank + 1)) e
  if rank % 2 = 0 then low.2 ≤ low.1 && high.1 ≤ high.2 else low.2 < low.1 && high.1 < high.2

/-- The neighbours of a magnitude on the grid of multiples of `10 ^ e`, and how twice the distance
to the lower one compares with the step. -/
def neighbours (rank : Nat) (e : Int) : Nat × Ordering :=
  let step := align (twoTo 1074) (units rank) e
  let q := step.2 / step.1
  (q, compare (2 * (step.2 - q * step.1)) step.1)

/-- The grid point chosen for a magnitude, if one of its neighbours rounds to it. -/
def onGrid (rank : Nat) (e : Int) : Option Nat :=
  let (q, side) := neighbours rank e
  let down := roundsTo rank q e
  let up := roundsTo rank (q + 1) e
  let preferUp := match side with
    | .lt => false
    | .gt => true
    | .eq => q % 2 = 1
  if up && (preferUp || !down) then some (q + 1) else if down then some q else none

/-- Tries `count` digits, then one more, as long as tries are left. -/
def shortestFrom (rank : Nat) (top : Int) : Nat → Nat → Decimal
  | 0, count => ⟨(neighbours rank (top - count + 1)).1, top - count + 1⟩
  | tries + 1, count =>
    let e := top - count + 1
    match onGrid rank e with
    | some c => ⟨c, e⟩
    | none => shortestFrom rank top tries (count + 1)

/-- Moves trailing zeros of the digits into the exponent. -/
def trimZeros : Nat → Decimal → Decimal
  | 0, d => d
  | tries + 1, d =>
    if d.digits ≠ 0 ∧ d.digits % 10 = 0 then trimZeros tries ⟨d.digits / 10, d.exponent + 1⟩ else d

/-- The shortest decimal that rounds to the magnitude with this positive rank. -/
def shortest (rank : Nat) : Decimal :=
  trimZeros 20 (shortestFrom rank (decimalExponent (units rank)) 17 1)

/-- How a format lays out a decimal: which exponents of the first digit are written without a
power of ten, and what follows the digits of a whole number. -/
structure Layout where
  plain : Int → Bool
  whole : String

def zeros (n : Nat) : String := String.ofList (List.replicate n '0')

namespace Layout

/-- The digits with a point after the first `lead` of them. -/
def pointed (digits : String) (lead : Nat) : String :=
  String.ofList (digits.toList.take lead) ++ "." ++ String.ofList (digits.toList.drop lead)

/-- Plain notation of a decimal. -/
def plainText (l : Layout) (digits : String) (exponent : Int) : String :=
  let top : Int := digits.length + exponent
  if 0 ≤ exponent then digits ++ zeros exponent.toNat ++ l.whole
  else if 0 < top then pointed digits top.toNat
  else "0." ++ zeros (-top).toNat ++ digits

/-- Notation with a power of ten, its sign always written. -/
def powerText (digits : String) (exponent : Int) : String :=
  let first : Int := digits.length + exponent - 1
  (if digits.length = 1 then digits else pointed digits 1)
    ++ "e" ++ (if 0 ≤ first then "+" else "-") ++ first.natAbs.repr

/-- The text of a finite number. -/
def text (l : Layout) (x : Binary64) : String :=
  (if x.negative then "-" else "") ++
    if x.rank = 0 then "0" ++ l.whole
    else
      let d := shortest x.rank
      let digits := d.digits.repr
      if l.plain (digits.length + d.exponent - 1) then l.plainText digits d.exponent
      else powerText digits d.exponent

end Layout

/-- A number that is not negative, to one decimal place; a tie goes to the even digit. -/
def oneDecimal (x : Binary64) : String :=
  let tenths := roundDiv (units x.rank * 10) (twoTo 1074)
  (tenths / 10).repr ++ "." ++ (tenths % 10).repr

end RobotDesk.Number
