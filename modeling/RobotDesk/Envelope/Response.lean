import RobotDesk.Asset
import RobotDesk.Job
import RobotDesk.TestCase

/-!
What clients receive.  Every success says whether it speaks of the simulation, in `mock`; a refusal
has a text instead.
-/
namespace RobotDesk.Envelope

open Json

structure Refusal where
  ok : Bool := false
  error : String := ""
deriving DecidableEq, Repr, Inhabited

namespace Refusal

def fields : List (RecordField Refusal) :=
  [.required "ok" .bool fun v r => { r with ok := v },
   .required "error" .string fun v r => { r with error := v }]

def toJson (r : Refusal) : Json := .object [("ok", .bool r.ok), ("error", .string r.error)]

def codec : Codec Refusal := .record fields {} toJson

end Refusal

structure Acknowledgement where
  ok : Bool := true
  mock : Bool := false
deriving DecidableEq, Repr, Inhabited

namespace Acknowledgement

def fields : List (RecordField Acknowledgement) :=
  [.required "ok" .bool fun v r => { r with ok := v },
   .required "mock" .bool fun v r => { r with mock := v }]

def toJson (r : Acknowledgement) : Json := .object [("ok", .bool r.ok), ("mock", .bool r.mock)]

def codec : Codec Acknowledgement := .record fields {} toJson

end Acknowledgement

structure Health where
  ok : Bool := true
  mock : Bool := false
  /-- Whether the orchestrator answers, in words. -/
  reach : String := ""
deriving DecidableEq, Repr, Inhabited

namespace Health

/-- What is reported for an orchestrator that answers, or does not. -/
def report (mock healthy : Bool) : Health :=
  ⟨healthy, mock, if healthy then "healthy" else "unreachable"⟩

def fields : List (RecordField Health) :=
  [.required "ok" .bool fun v r => { r with ok := v },
   .required "mock" .bool fun v r => { r with mock := v },
   .required "upstream" .string fun v r => { r with reach := v }]

def toJson (r : Health) : Json :=
  .object [("ok", .bool r.ok), ("mock", .bool r.mock), ("upstream", .string r.reach)]

def codec : Codec Health := .record fields {} toJson

end Health

structure OneJob where
  ok : Bool := true
  mock : Bool := false
  job : JobRecord := default
deriving Repr, Inhabited

namespace OneJob

def fields : List (RecordField OneJob) :=
  [.required "ok" .bool fun v r => { r with ok := v },
   .required "mock" .bool fun v r => { r with mock := v },
   .required "job" JobRecord.codec fun v r => { r with job := v }]

def toJson (r : OneJob) : Json :=
  .object [("ok", .bool r.ok), ("mock", .bool r.mock), ("job", r.job.toJson)]

def codec : Codec OneJob := .record fields {} toJson

end OneJob

structure JobList where
  ok : Bool := true
  mock : Bool := false
  jobs : List JobRecord := []
deriving Repr, Inhabited

namespace JobList

def fields : List (RecordField JobList) :=
  [.required "ok" .bool fun v r => { r with ok := v },
   .required "mock" .bool fun v r => { r with mock := v },
   .required "jobs" (.list JobRecord.codec) fun v r => { r with jobs := v }]

def toJson (r : JobList) : Json :=
  .object [("ok", .bool r.ok), ("mock", .bool r.mock), ("jobs", .array (r.jobs.map (·.toJson)))]

def codec : Codec JobList := .record fields {} toJson

end JobList

structure OneAsset where
  ok : Bool := true
  mock : Bool := false
  asset : AssetValue := default
deriving Repr, Inhabited

namespace OneAsset

def fields : List (RecordField OneAsset) :=
  [.required "ok" .bool fun v r => { r with ok := v },
   .required "mock" .bool fun v r => { r with mock := v },
   .required "asset" AssetValue.codec fun v r => { r with asset := v }]

def toJson (r : OneAsset) : Json :=
  .object [("ok", .bool r.ok), ("mock", .bool r.mock), ("asset", r.asset.toJson)]

def codec : Codec OneAsset := .record fields {} toJson

end OneAsset

/-- The outcome of a batch of test cases. -/
structure TestReport where
  ok : Bool := true
  mock : Bool := false
  botId : String := ""
  summary : TestSummary := {}
  results : List TestResult := []
deriving Repr, Inhabited

namespace TestReport

def fields : List (RecordField TestReport) :=
  [.required "ok" .bool fun v r => { r with ok := v },
   .required "mock" .bool fun v r => { r with mock := v },
   .required "botId" .string fun v r => { r with botId := v },
   .required "summary" TestSummary.codec fun v r => { r with summary := v },
   .required "results" (.list TestResult.codec) fun v r => { r with results := v }]

def toJson (r : TestReport) : Json :=
  .object [("ok", .bool r.ok), ("mock", .bool r.mock), ("botId", .string r.botId),
    ("summary", r.summary.toJson), ("results", .array (r.results.map (·.toJson)))]

def codec : Codec TestReport := .record fields {} toJson

end TestReport
end RobotDesk.Envelope
