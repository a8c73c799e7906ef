import RobotDesk.Json.Printer
import RobotDesk.Json.Reader

/-!
Differences between an expected and an actual JSON value.

A difference has a place, the keys and positions that lead to it from the root, and a cause.  Two
objects are walked in the order of their keys, and a key that only one of them has is a difference.
Two arrays differ in their lengths, and then in the items that both have.  Everything else differs
in its kind or its value.
-/
namespace RobotDesk

namespace Json

/-- A step into a value: to a member of an object, or to an item of an array. -/
inductive Step where
  | key (name : String)
  | index (i : Nat)
deriving DecidableEq, Repr

inductive Cause where
  | missing
  | unexpected
  | lengths (expected actual : Nat)
  | kinds (expected actual : String)
  | values (expected actual : Json)
deriving Repr

structure Difference where
  path : List Step
  cause : Cause
deriving Repr

namespace Step

def text : Step → String
  | .key name => "." ++ name
  | .index i => "[" ++ i.repr ++ "]"

end Step

namespace Cause

def text : Cause → String
  | .missing => "missing"
  | .unexpected => "unexpected key"
  | .lengths e a => "array length differs (expected " ++ e.repr ++ ", actual " ++ a.repr ++ ")"
  | .kinds e a => "type differs (expected " ++ e ++ ", actual " ++ a ++ ")"
  | .values e a => "expected " ++ e.render ++ ", actual " ++ a.render

/-- The cause with the expected and the actual side exchanged. -/
def swap : Cause → Cause
  | .missing => .unexpected
  | .unexpected => .missing
  | .lengths e a => .lengths a e
  | .kinds e a => .kinds a e
  | .values e a => .values a e

end Cause

namespace Difference

/-- The text of a place, from the root on. -/
def place (path : List Step) : String := path.foldl (fun s step => s ++ step.text) "$"

def text (d : Difference) : String := place d.path ++ ": " ++ d.cause.text

/-- The difference seen from one step further out. -/
def under (step : Step) (d : Difference) : Difference := { d with path := step :: d.path }

def missing (m : String × Json) : Difference := ⟨[.key m.1], .missing⟩

def unexpected (m : String × Json) : Difference := ⟨[.key m.1], .unexpected⟩

/-- The difference between the lengths of two arrays, if there is one. -/
def lengths (e a : List Json) : List Difference :=
  if e.length = a.length then [] else [⟨[], .lengths e.length a.length⟩]

/-- The difference between two values of which one is not a container of the other's kind. -/
def leaf (e a : Json) : List Difference :=
  if e.kind ≠ a.kind then [⟨[], .kinds e.kind a.kind⟩]
  else if e.same a then []
  else [⟨[], .values e a⟩]

end Difference

mutual

/-- The differences between an expected and an actual value. -/
def differences : Json → Json → List Difference
  | .object e, .object a => memberDifferences e a
  | .array e, .array a => Difference.lengths e a ++ itemDifferences 0 e a
  | e, a => Difference.leaf e a

/-- The differences between the members of two objects whose keys are sorted. -/
def memberDifferences : List (String × Json) → List (String × Json) → List Difference
  | [], a => a.map .unexpected
  | (k, v) :: e, a =>
    (a.takeWhile (·.1 < k)).map .unexpected ++
      match a.dropWhile (·.1 < k) with
      | [] => .missing (k, v) :: memberDifferences e []
      | (l, w) :: a =>
        if l = k then (differences v w).map (.under (.key k)) ++ memberDifferences e a
        else .missing (k, v) :: memberDifferences e ((l, w) :: a)

/-- The differences between the items that two arrays both have, counted from a position. -/
def itemDifferences (i : Nat) : List Json → List Json → List Difference
  | e :: es, a :: as =>
    (differences e a).map (.under (.index i)) ++ itemDifferences (i + 1) es as
  | _, _ => []

end

end Json

/-- The differences between an expected and an actual document. -/
def Document.differences (expected actual : Document) : List Json.Difference :=
  Json.differences expected.value actual.value

/-- The differences between two texts, if both are JSON. -/
def Json.textDifferences (expected actual : String) : List Difference :=
  match parse? expected, parse? actual with
  | some e, some a => e.differences a
  | _, _ => []

end RobotDesk
