import RobotDesk.Time.Reader

/-!
Test cases, their results, and the tally of a batch.
-/
namespace RobotDesk

open Json Time

structure TestCase where
  caseId : String
  inputData : Members := .empty
  expectedOutput : String := ""
deriving Repr, Inhabited

namespace TestCase

def fields : List (RecordField TestCase) :=
  [.required "caseId" .string fun v r => { r with caseId := v },
   .defaulted "inputData" .members fun v r => { r with inputData := v },
   .defaulted "expectedOutput" .string fun v r => { r with expectedOutput := v }]

def toJson (c : TestCase) : Json :=
  .object [("caseId", .string c.caseId), ("inputData", c.inputData.toJson),
    ("expectedOutput", .string c.expectedOutput)]

def codec : Codec TestCase := .record fields { caseId := "" } toJson

end TestCase

inductive TestOutcome where
  | pass
  | fail
  | error
deriving DecidableEq, Repr, Inhabited

namespace TestOutcome

def name : TestOutcome → String
  | .pass => "pass"
  | .fail => "fail"
  | .error => "error"

def all : List TestOutcome := [.pass, .fail, .error]

def ofName? (s : String) : Option TestOutcome := all.find? (·.name = s)

theorem ofName?_name (o : TestOutcome) : ofName? o.name = some o := by cases o <;> decide

def codec : Codec TestOutcome := .choice ofName? name

end TestOutcome

structure TestResult where
  jobId : String
  botId : String
  caseId : String
  status : TestOutcome
  actualOutput : String
  expectedOutput : String
  diffDetail : Option String := none
  duration : String
  timestamp : Timestamp
deriving DecidableEq, Repr, Inhabited

namespace TestResult

def fields : List (RecordField TestResult) :=
  [.required "jobId" .string fun v r => { r with jobId := v },
   .required "botId" .string fun v r => { r with botId := v },
   .required "caseId" .string fun v r => { r with caseId := v },
   .required "status" TestOutcome.codec fun v r => { r with status := v },
   .required "actualOutput" .string fun v r => { r with actualOutput := v },
   .required "expectedOutput" .string fun v r => { r with expectedOutput := v },
   .defaulted "diffDetail" (.option .string) fun v r => { r with diffDetail := v },
   .required "duration" .string fun v r => { r with duration := v },
   .required "timestamp" Timestamp.codec fun v r => { r with timestamp := v }]

def toJson (r : TestResult) : Json :=
  .object ([("jobId", .string r.jobId), ("botId", .string r.botId), ("caseId", .string r.caseId),
      ("status", TestOutcome.codec.toJson r.status), ("actualOutput", .string r.actualOutput),
      ("expectedOutput", .string r.expectedOutput)]
    ++ present? "diffDetail" .string r.diffDetail
    ++ [("duration", .string r.duration), ("timestamp", Timestamp.codec.toJson r.timestamp)])

def codec : Codec TestResult := .record fields default toJson

end TestResult

structure TestSummary where
  total : Nat := 0
  pass : Nat := 0
  fail : Nat := 0
  error : Nat := 0
deriving DecidableEq, Repr, Inhabited

namespace TestSummary

/-- Counts one more result. -/
def record (s : TestSummary) : TestOutcome → TestSummary
  | .pass => { s with total := s.total + 1, pass := s.pass + 1 }
  | .fail => { s with total := s.total + 1, fail := s.fail + 1 }
  | .error => { s with total := s.total + 1, error := s.error + 1 }

/-- A result counts under exactly one outcome. -/
theorem parts_record (s : TestSummary) (o : TestOutcome) :
    (s.record o).pass + (s.record o).fail + (s.record o).error = s.pass + s.fail + s.error + 1 := by
  cases o <;> simp only [record] <;> omega

def fields : List (RecordField TestSummary) :=
  [.required "total" .count fun v r => { r with total := v },
   .required "pass" .count fun v r => { r with pass := v },
   .required "fail" .count fun v r => { r with fail := v },
   .required "error" .count fun v r => { r with error := v }]

def toJson (s : TestSummary) : Json :=
  .object [("total", .nat s.total), ("pass", .nat s.pass), ("fail", .nat s.fail),
    ("error", .nat s.error)]

def codec : Codec TestSummary := .record fields {} toJson

end TestSummary
end RobotDesk
