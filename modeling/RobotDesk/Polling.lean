import RobotDesk.Desk

/-!
Polling a job until it has ended or a deadline has passed.

Between two polls the desk waits for the poll interval, but not beyond the deadline, so that the
last poll is made at the deadline.  Each wait of a positive interval brings the deadline nearer,
which bounds the number of polls.  Polls without a wait between them may go on for ever; they are
followed as far as patience goes.
-/
namespace RobotDesk

/-- How polling a job ended, with the last record seen. -/
inductive Ending where
  | finished (job : JobRecord)
  | timedOut (job : JobRecord)
deriving Repr

namespace Ending

def job : Ending → JobRecord
  | .finished job | .timedOut job => job

end Ending

namespace Polling

variable {σ : Type}

/-- How polling ends at a time, unless another poll is due. -/
def ending? (deadline now : Nat) (job : JobRecord) : Option Ending :=
  if job.status.isTerminal then some (.finished job)
  else if deadline ≤ now then some (.timedOut job)
  else none

/-- Waits for the interval, but not beyond the deadline, and polls. -/
def poll (b : Backend σ) (interval deadline : Nat) (job : JobRecord) : Work σ JobRecord := do
  let next ← Work.later interval
  Work.sleepUntil (min next deadline)
  Desk.getJob b job.jobId

/-- Polls at most a number of times. -/
def pollAtMost (b : Backend σ) (interval deadline : Nat) : Nat → JobRecord → Work σ Ending
  | 0, job => do
    match ending? deadline (← Work.now) job with
    | some ending => return ending
    | none => Work.stop .unsettled
  | polls + 1, job => do
    match ending? deadline (← Work.now) job with
    | some ending => return ending
    | none => pollAtMost b interval deadline polls (← poll b interval deadline job)

/-- Polls a job until it has ended or the deadline has passed.  At most as many polls are followed
as there are nanoseconds left, and `patience` more for an interval without a wait. -/
def untilTerminal (b : Backend σ) (interval patience deadline : Nat) (job : JobRecord) :
    Work σ Ending := do
  let now ← Work.now
  pollAtMost b interval deadline (deadline - now + patience) job

end Polling
end RobotDesk
