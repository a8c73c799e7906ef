import RobotDesk.Number.Decimal

/-!
Real numbers as a person types them.

A typed number is a decimal with an optional sign, point and power of ten, or a spelling of
infinity or of "not a number".  A decimal is rounded correctly; one beyond the finite range is
infinite.  Written back, it never has a power of ten.
-/
namespace RobotDesk.Number

inductive Extended where
  | finite (x : Binary64)
  | infinite (negative : Bool)
  | nan
deriving DecidableEq, Repr

namespace Extended

def ofBinary64 (x : Binary64) : Extended :=
  if x.isFinite then .finite x else .infinite x.negative

/-- Every power of ten is written out, and a whole number has no point. -/
def layout : Layout := ⟨fun _ => true, ""⟩

def text : Extended → String
  | .finite x => layout.text x
  | .infinite negative => if negative then "-inf" else "inf"
  | .nan => "NaN"

/-- Whether the number lies between zero and one, both included. -/
def isShare : Extended → Bool
  | .finite x => x.rank = 0 || (!x.negative && x.rank ≤ (Binary64.ofNat 1).rank)
  | _ => false

/-- Whether the number is one or more. -/
def isCertain : Extended → Bool
  | .finite x => !x.negative && (Binary64.ofNat 1).rank ≤ x.rank
  | .infinite negative => !negative
  | .nan => false

/-- Whether the number is zero or less. -/
def isNever : Extended → Bool
  | .finite x => x.rank = 0 || x.negative
  | .infinite negative => negative
  | .nan => false

def digitValue (c : Char) : Nat := c.toNat - '0'.toNat

def ofDigits (ds : List Char) : Nat := ds.foldl (fun n c => 10 * n + digitValue c) 0

/-- A power of ten after its mark: an optional sign and at least one digit. -/
def power? (cs : List Char) : Option Int :=
  let (negative, ds) := match cs with
    | '-' :: r => (true, r)
    | '+' :: r => (false, r)
    | r => (false, r)
  if ds.isEmpty || !ds.all Char.isDigit then none
  else some (if negative then -(ofDigits ds : Int) else ofDigits ds)

/-- A decimal without its sign. -/
def decimal? (negative : Bool) (cs : List Char) : Option Extended :=
  let whole := cs.takeWhile Char.isDigit
  let rest := cs.dropWhile Char.isDigit
  let (fraction, rest) := match rest with
    | '.' :: r => (r.takeWhile Char.isDigit, r.dropWhile Char.isDigit)
    | r => ([], r)
  let scaled (e : Int) : Extended :=
    let digits := ofDigits (whole ++ fraction)
    let exponent := e - fraction.length
    -- Far outside the range the answer no longer depends on the digits.
    if digits = 0 ∨ (whole ++ fraction).length + exponent < -400 then .finite ⟨negative, 0⟩
    else if 400 < exponent then .infinite negative
    else ofBinary64 (Binary64.ofDecimal negative digits exponent)
  if whole.isEmpty && fraction.isEmpty then none
  else match rest with
    | [] => some (scaled 0)
    | c :: r => if c = 'e' ∨ c = 'E' then (power? r).map scaled else none

/-- The number spelled by a text, if it spells one. -/
def ofText? (s : String) : Option Extended :=
  let (negative, body) := match s.toList with
    | '-' :: r => (true, r)
    | '+' :: r => (false, r)
    | r => (false, r)
  let lower := body.map Char.toLower
  if lower = "inf".toList ∨ lower = "infinity".toList then some (.infinite negative)
  else if lower = "nan".toList then some .nan
  else decimal? negative body

end Extended
end RobotDesk.Number
