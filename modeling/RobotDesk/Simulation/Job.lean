import RobotDesk.Job
import RobotDesk.Number.Extended

/-!
Simulated jobs.

A simulated job is pending for two seconds, runs for three more, and then ends as was decided when
it was created.  Its phase is brought up to date whenever the job is read, and only ever moves
forward, also when the clock steps back.
-/
namespace RobotDesk.Simulation

open Time

/-- How a job will end. -/
inductive Outcome where
  | successful (processed : Nat)
  | faulted
deriving DecidableEq, Repr, Inhabited

/-- What chance brings for one job: a number below `2 ^ 64` and another one. -/
structure Draw where
  fault : Nat
  count : Nat
deriving DecidableEq, Repr, Inhabited

/-- The share of faulted jobs, out of `2 ^ 64`. -/
def faultShare (rate : Number.Extended) : Nat :=
  if rate.isCertain then Number.twoTo 64
  else if rate.isNever then 0
  else match rate with
    | .finite x => Number.units x.rank * Number.twoTo 64 / Number.twoTo 1074
    | _ => 0

/-- The outcome that chance decides at a failure rate; a successful job processes 10 to 59 items. -/
def Outcome.rolled (rate : Number.Extended) (draw : Draw) : Outcome :=
  if draw.fault < faultShare rate then .faulted else .successful (10 + draw.count % 50)

inductive Phase where
  | pending
  | running
  | finished
deriving DecidableEq, Repr, Inhabited

def runningAfter : Duration := milliseconds 2000
def finishedAfter : Duration := milliseconds 5000

namespace Phase

/-- The phase that is due once some time has passed. -/
def due (elapsed : Duration) : Phase :=
  if finishedAfter ≤ elapsed then .finished
  else if runningAfter ≤ elapsed then .running
  else .pending

/-- The later of two phases. -/
def later : Phase → Phase → Phase
  | .finished, _ | _, .finished => .finished
  | .running, _ | _, .running => .running
  | .pending, .pending => .pending

@[simp] theorem later_self (p : Phase) : p.later p = p := by cases p <;> rfl

theorem later_comm (p q : Phase) : p.later q = q.later p := by cases p <;> cases q <;> rfl

theorem later_assoc (p q r : Phase) : (p.later q).later r = p.later (q.later r) := by
  cases p <;> cases q <;> cases r <;> rfl

end Phase

structure Job where
  number : Nat
  jobId : String
  processKey : String
  createdAt : Timestamp
  outcome : Outcome
  phase : Phase := .pending
deriving DecidableEq, Repr, Inhabited

/-- What a faulted job reports. -/
def faultMessage : String := "Error in step 3"

namespace Job

/-- Brings a job up to date. -/
def advance (job : Job) (now : Timestamp) : Job :=
  { job with phase := job.phase.later (.due (now.since job.createdAt)) }

@[simp] theorem jobId_advance (job : Job) (now : Timestamp) :
    (job.advance now).jobId = job.jobId := rfl

@[simp] theorem createdAt_advance (job : Job) (now : Timestamp) :
    (job.advance now).createdAt = job.createdAt := rfl

/-- To bring a job up to date twice at one time is to do it once. -/
theorem advance_advance (job : Job) (now : Timestamp) :
    (job.advance now).advance now = job.advance now := by
  simp [advance, Phase.later_assoc]

def status (job : Job) : JobStatus :=
  match job.phase, job.outcome with
  | .pending, _ => .pending
  | .running, _ => .running
  | .finished, .successful _ => .successful
  | .finished, .faulted => .faulted

def startedAt (job : Job) : Option Timestamp :=
  match job.phase with
  | .pending => none
  | .running | .finished => job.createdAt.add? runningAfter

def endedAt (job : Job) : Option Timestamp :=
  match job.phase with
  | .pending | .running => none
  | .finished => job.createdAt.add? finishedAfter

def output (job : Job) : Option Members :=
  match job.phase, job.outcome with
  | .finished, .successful n =>
    some (.ofPairs [("processedCount", .nat n), ("result", .string "OK")])
  | .finished, .faulted => some (.ofPairs [("result", .string faultMessage)])
  | _, _ => none

def info (job : Job) : String :=
  match job.phase, job.outcome with
  | .finished, .faulted => faultMessage
  | _, _ => "Mock job for " ++ job.processKey

/-- The record of a job as of the last time it was brought up to date. -/
def snapshot (job : Job) : JobRecord where
  jobId := job.jobId
  processKey := job.processKey
  status := job.status
  createdAt := job.createdAt
  startedAt := job.startedAt
  endedAt := job.endedAt
  outputArguments := job.output
  info := some job.info

end Job
end RobotDesk.Simulation
