import RobotDesk.Number.Decimal

/-!
JSON values.

A numeral is an integer or a real, and the two never agree: `1` is not `1.0`.  The members of an
object are kept in the order in which they are written: an envelope lists its fields, a free-form
object has its keys sorted.
-/
namespace RobotDesk

inductive Numeral where
  | int (n : Int)
  | real (x : Number.Binary64)
deriving DecidableEq, Repr

/-- The same number, of the same kind. -/
def Numeral.same : Numeral → Numeral → Bool
  | .int m, .int n => m = n
  | .real x, .real y => x.same y
  | _, _ => false

inductive Json where
  | null
  | bool (b : Bool)
  | number (n : Numeral)
  | string (s : String)
  | array (items : List Json)
  | object (members : List (String × Json))
deriving Repr, Inhabited

/-- The members of a JSON object, as they are written. -/
abbrev Entries := List (String × Json)

namespace Entries

/-- Puts a value under a key, before the first greater key; an equal key is overwritten. -/
def insert (key : String) (value : Json) : Entries → Entries
  | [] => [(key, value)]
  | (k, v) :: rest =>
    if key < k then (key, value) :: (k, v) :: rest
    else if key = k then (key, value) :: rest
    else (k, v) :: insert key value rest

/-- Puts each of some members in, in their order. -/
def insertAll (extra : Entries) (base : Entries) : Entries :=
  extra.foldl (fun ms m => insert m.1 m.2 ms) base

/-- The value of the first member with a key. -/
def get? (key : String) : Entries → Option Json
  | [] => none
  | (k, v) :: rest => if key = k then some v else get? key rest

@[simp] theorem get?_nil (key : String) : get? key [] = none := rfl

theorem get?_insert_self (key : String) (value : Json) (ms : Entries) :
    get? key (insert key value ms) = some value := by
  induction ms with
  | nil => simp [insert, get?]
  | cons m ms ih =>
    obtain ⟨k, v⟩ := m
    by_cases hlt : key < k
    · simp [insert, get?, hlt]
    · by_cases heq : key = k
      · subst heq; simp [insert, get?]
      · simp [insert, get?, hlt, heq, ih]

end Entries

namespace Json

def nat (n : Nat) : Json := .number (.int n)

/-- The name of a value's kind. -/
def kind : Json → String
  | .null => "null"
  | .bool _ => "bool"
  | .number _ => "number"
  | .string _ => "string"
  | .array _ => "array"
  | .object _ => "object"

/-- The value of an object's member. -/
def member? (key : String) : Json → Option Json
  | .object ms => Entries.get? key ms
  | _ => none

mutual

/-- Whether two values are equal.  Objects are compared member by member, which for sorted members
is equality as maps. -/
def same : Json → Json → Bool
  | .null, .null => true
  | .bool a, .bool b => a = b
  | .number a, .number b => a.same b
  | .string a, .string b => a = b
  | .array a, .array b => sameItems a b
  | .object a, .object b => sameMembers a b
  | _, _ => false

def sameItems : List Json → List Json → Bool
  | [], [] => true
  | a :: as, b :: bs => same a b && sameItems as bs
  | _, _ => false

def sameMembers : List (String × Json) → List (String × Json) → Bool
  | [], [] => true
  | (k, a) :: as, (l, b) :: bs => k = l && same a b && sameMembers as bs
  | _, _ => false

end

end Json
end RobotDesk
