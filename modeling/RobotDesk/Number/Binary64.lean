import RobotDesk.Number.Power

/-!
Finite binary64 numbers in exact arithmetic.

The finite magnitudes, in increasing order, are numbered from zero; a number is kept as its sign
and the number (`rank`) of its magnitude.  So equal numbers are equal values, except that zero has
two signs.  With `s` and `e` the significand and scale of a rank, the magnitude is
`s * 2 ^ e / 2 ^ 1074`.

`nearest` rounds a ratio of natural numbers to the nearest magnitude, a tie to the even rank; the
arithmetic below is defined by it.
-/
namespace RobotDesk.Number

/-- Ranks of finite magnitudes are below this one. -/
def rankLimit : Nat := 2047 * twoTo 52

/-- The integer significand of a rank. -/
def significand (rank : Nat) : Nat :=
  if rank < twoTo 53 then rank else twoTo 52 + rank % twoTo 52

/-- The power of two that scales the significand of a rank. -/
def scale (rank : Nat) : Nat := rank / twoTo 52 - 1

/-- The magnitude of a rank in units of `2 ^ -1074`. -/
def units (rank : Nat) : Nat := significand rank * twoTo (scale rank)

/-- The natural number nearest to a quotient, a tie to the even one. -/
def roundDiv (num den : Nat) : Nat :=
  let q := num / den
  let r := num % den
  if 2 * r < den then q
  else if den < 2 * r then q + 1
  else q + q % 2

/-- The rank nearest to `num / den`; it may reach `rankLimit` or pass it. -/
def nearest (num den : Nat) : Nat :=
  let wide := num * twoTo 1074
  let shift := Nat.log2 (wide / den) - 52
  shift * twoTo 52 + roundDiv wide (den * twoTo shift)

structure Binary64 where
  negative : Bool
  rank : Nat
deriving DecidableEq, Repr, Inhabited

namespace Binary64

def zero : Binary64 := ⟨false, 0⟩

def isFinite (x : Binary64) : Bool := x.rank < rankLimit

/-- The same number: zeros agree whatever their sign. -/
def same (x y : Binary64) : Bool := x = y || (x.rank = 0 && y.rank = 0)

def ofNat (n : Nat) : Binary64 := ⟨false, nearest n 1⟩

/-- The product of two magnitudes, rounded. -/
def mul (x y : Binary64) : Binary64 :=
  ⟨x.negative != y.negative, nearest (units x.rank * units y.rank) (twoTo 2148)⟩

/-- The quotient of two magnitudes, rounded; the divisor is not zero. -/
def div (x y : Binary64) : Binary64 :=
  ⟨x.negative != y.negative, nearest (units x.rank) (units y.rank)⟩

/-- The sum of two numbers that are not negative, rounded. -/
def add (x y : Binary64) : Binary64 := ⟨false, nearest (units x.rank + units y.rank) (twoTo 1074)⟩

/-- The power of ten nearest to `10 ^ k`. -/
def pow10 (k : Nat) : Binary64 := ofNat (tenTo k)

/-- The number nearest to `m * 10 ^ e`. -/
def ofDecimal (negative : Bool) (m : Nat) (e : Int) : Binary64 :=
  ⟨negative, if 0 ≤ e then nearest (m * tenTo e.toNat) 1 else nearest m (tenTo (-e).toNat)⟩

end Binary64
end RobotDesk.Number
