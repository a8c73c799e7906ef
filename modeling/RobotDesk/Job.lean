import RobotDesk.Time.Reader

/-!
Robot jobs: what is asked for, what is known about one, and how a list of them is narrowed.

A job moves from pending to running to one of three terminal states.  A record keeps its times and
its output only once they exist.  A filter names a process, a status, both or neither, and a job
has to agree with what is named.
-/
namespace RobotDesk

open Json Time

inductive JobStatus where
  | pending
  | running
  | successful
  | faulted
  | stopped
deriving DecidableEq, Repr, Inhabited

namespace JobStatus

def isTerminal : JobStatus → Bool
  | .pending | .running => false
  | .successful | .faulted | .stopped => true

def name : JobStatus → String
  | .pending => "Pending"
  | .running => "Running"
  | .successful => "Successful"
  | .faulted => "Faulted"
  | .stopped => "Stopped"

def all : List JobStatus := [.pending, .running, .successful, .faulted, .stopped]

/-- The status with a name, spelled exactly. -/
def ofName? (s : String) : Option JobStatus := all.find? (·.name = s)

theorem ofName?_name (st : JobStatus) : ofName? st.name = some st := by cases st <;> decide

/-- A status is found under its own name only. -/
theorem ofName?_eq_some_iff (s : String) (st : JobStatus) : ofName? s = some st ↔ s = st.name := by
  constructor
  · intro h
    have hname := List.find?_some h
    exact (of_decide_eq_true hname).symm
  · rintro rfl
    exact ofName?_name st

/-- Other statuses have other names. -/
theorem name_inj {st st' : JobStatus} : st.name = st'.name ↔ st = st' := by
  rw [← ofName?_eq_some_iff, ofName?_name, Option.some_inj]

/-- What is said about a name that no status has. -/
def unknown (s : String) : String := "unknown job status '" ++ s ++ "'"

def codec : Codec JobStatus := .choice ofName? name

end JobStatus

structure JobRequest where
  processKey : String
  robotName : Option String := none
  inputArguments : Members := .empty
deriving Repr, Inhabited

namespace JobRequest

def fields : List (RecordField JobRequest) :=
  [.required "processKey" .string fun v r => { r with processKey := v },
   .defaulted "robotName" (.option .string) fun v r => { r with robotName := v },
   .defaulted "inputArguments" .members fun v r => { r with inputArguments := v }]

def toJson (r : JobRequest) : Json :=
  .object ([("processKey", .string r.processKey)]
    ++ present? "robotName" .string r.robotName
    ++ [("inputArguments", r.inputArguments.toJson)])

def codec : Codec JobRequest := .record fields { processKey := "" } toJson

end JobRequest

structure JobRecord where
  jobId : String
  processKey : String
  status : JobStatus
  createdAt : Timestamp
  startedAt : Option Timestamp := none
  endedAt : Option Timestamp := none
  outputArguments : Option Members := none
  info : Option String := none
deriving Repr, Inhabited

namespace JobRecord

def fields : List (RecordField JobRecord) :=
  [.required "jobId" .string fun v r => { r with jobId := v },
   .required "processKey" .string fun v r => { r with processKey := v },
   .required "status" JobStatus.codec fun v r => { r with status := v },
   .required "createdAt" Timestamp.codec fun v r => { r with createdAt := v },
   .defaulted "startedAt" (.option Timestamp.codec) fun v r => { r with startedAt := v },
   .defaulted "endedAt" (.option Timestamp.codec) fun v r => { r with endedAt := v },
   .defaulted "outputArguments" (.option .members) fun v r => { r with outputArguments := v },
   .defaulted "info" (.option .string) fun v r => { r with info := v }]

def toJson (r : JobRecord) : Json :=
  .object ([("jobId", .string r.jobId), ("processKey", .string r.processKey),
      ("status", JobStatus.codec.toJson r.status),
      ("createdAt", Timestamp.codec.toJson r.createdAt)]
    ++ present? "startedAt" Timestamp.codec r.startedAt
    ++ present? "endedAt" Timestamp.codec r.endedAt
    ++ present? "outputArguments" .members r.outputArguments
    ++ present? "info" .string r.info)

def codec : Codec JobRecord := .record fields default toJson

end JobRecord

structure JobFilter where
  processKey : Option String := none
  status : Option JobStatus := none
deriving DecidableEq, Repr, Inhabited

namespace JobFilter

/-- Whether the filter names nothing. -/
def isEmpty (f : JobFilter) : Bool := f.processKey.isNone && f.status.isNone

/-- Whether a job agrees with what the filter names. -/
def accepts (f : JobFilter) (job : JobRecord) : Bool :=
  f.processKey.all (· = job.processKey) && f.status.all (· = job.status)

def fields : List (RecordField JobFilter) :=
  [.defaulted "processKey" (.option .string) fun v r => { r with processKey := v },
   .defaulted "status" (.option JobStatus.codec) fun v r => { r with status := v }]

def toJson (f : JobFilter) : Json :=
  .object (present? "processKey" .string f.processKey
    ++ present? "status" JobStatus.codec f.status)

def codec : Codec JobFilter := .record fields {} toJson

end JobFilter
end RobotDesk
