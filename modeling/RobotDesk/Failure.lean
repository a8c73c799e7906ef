/-!
How an operation can fail.

A request may be invalid before anything is sent; what is asked for may not exist; the orchestrator
may not be reached, or may refuse with a status; and its answer may not be understood.  Where the
cause is reported in words that this library does not fix, they are elided.
-/
namespace RobotDesk

inductive Failure where
  | invalidRequest (reason : String)
  | notFound (what : String)
  | unreachable (reason : String)
  | refused (status : Nat) (body : String)
  | undecodable (reason : String)
deriving DecidableEq, Repr, Inhabited

/-- Stands for words that are not fixed. -/
def elided : String := "<detail>"

namespace Failure

def message : Failure → String
  | .invalidRequest reason => "Invalid request: " ++ reason
  | .notFound what => "Not found: " ++ what
  | .unreachable reason => "Orchestrator unreachable: " ++ reason
  | .refused status body => "Orchestrator error (status " ++ status.repr ++ "): " ++ body
  | .undecodable reason => "Failed to decode orchestrator response: " ++ reason

def isNotFound : Failure → Bool
  | .notFound _ => true
  | _ => false

end Failure

/-- What succeeds in two steps succeeds in each of them. -/
theorem ok_of_bind {ε α β : Type} {x : Except ε α} {k : α → Except ε β} {v : β}
    (h : (x >>= k) = .ok v) : ∃ u, x = .ok u ∧ k u = .ok v := by
  cases x with
  | error f => cases h
  | ok u => exact ⟨u, rfl, h⟩

end RobotDesk
