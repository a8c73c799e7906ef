import RobotDesk.Asset
import RobotDesk.Job
import RobotDesk.TestCase

/-!
What clients send: request bodies and queries.

Every field may be left out of an object, so that an endpoint can say which one it misses.  Written
back, a field without a value is null.
-/
namespace RobotDesk.Envelope

open Json

/-- The body that starts a job. -/
structure JobOrder where
  processKey : Option String := none
  robotName : Option String := none
  inputArguments : Option Members := none
deriving Repr, Inhabited

namespace JobOrder

def fields : List (RecordField JobOrder) :=
  [.optional "processKey" (.option .string) fun v r => { r with processKey := v },
   .optional "robotName" (.option .string) fun v r => { r with robotName := v },
   .optional "inputArguments" (.option .members) fun v r => { r with inputArguments := v }]

def toJson (b : JobOrder) : Json :=
  .object [("processKey", (Codec.option .string).toJson b.processKey),
    ("robotName", (Codec.option .string).toJson b.robotName),
    ("inputArguments", (Codec.option .members).toJson b.inputArguments)]

def codec : Codec JobOrder := .record fields {} toJson

end JobOrder

/-- The query of a job, or of the jobs of a process or status. -/
structure JobsQuery where
  jobId : Option String := none
  processKey : Option String := none
  status : Option String := none
deriving DecidableEq, Repr, Inhabited

namespace JobsQuery

def fields : List (RecordField JobsQuery) :=
  [.optional "jobId" (.option .string) fun v r => { r with jobId := v },
   .optional "processKey" (.option .string) fun v r => { r with processKey := v },
   .optional "status" (.option .string) fun v r => { r with status := v }]

def toJson (q : JobsQuery) : Json :=
  .object [("jobId", (Codec.option .string).toJson q.jobId),
    ("processKey", (Codec.option .string).toJson q.processKey),
    ("status", (Codec.option .string).toJson q.status)]

def codec : Codec JobsQuery := .record fields {} toJson

end JobsQuery

/-- The body that sets an asset. -/
structure AssetOrder where
  name : Option String := none
  type : Option AssetType := none
  value : Option String := none
deriving DecidableEq, Repr, Inhabited

namespace AssetOrder

def fields : List (RecordField AssetOrder) :=
  [.optional "name" (.option .string) fun v r => { r with name := v },
   .optional "type" (.option AssetType.codec) fun v r => { r with type := v },
   .optional "value" (.option .string) fun v r => { r with value := v }]

def toJson (b : AssetOrder) : Json :=
  .object [("name", (Codec.option .string).toJson b.name),
    ("type", (Codec.option AssetType.codec).toJson b.type),
    ("value", (Codec.option .string).toJson b.value)]

def codec : Codec AssetOrder := .record fields {} toJson

end AssetOrder

/-- The query of an asset. -/
structure AssetQuery where
  name : Option String := none
deriving DecidableEq, Repr, Inhabited

namespace AssetQuery

def fields : List (RecordField AssetQuery) :=
  [.optional "name" (.option .string) fun v r => { r with name := v }]

def toJson (q : AssetQuery) : Json := .object [("name", (Codec.option .string).toJson q.name)]

def codec : Codec AssetQuery := .record fields {} toJson

end AssetQuery

/-- The body that runs test cases; a test plan on file has the same form. -/
structure TestPlan where
  botId : Option String := none
  processKey : Option String := none
  cases : Option (List TestCase) := none
deriving Repr, Inhabited

namespace TestPlan

def fields : List (RecordField TestPlan) :=
  [.optional "botId" (.option .string) fun v r => { r with botId := v },
   .optional "processKey" (.option .string) fun v r => { r with processKey := v },
   .optional "cases" (.option (.list TestCase.codec)) fun v r => { r with cases := v }]

def toJson (p : TestPlan) : Json :=
  .object [("botId", (Codec.option .string).toJson p.botId),
    ("processKey", (Codec.option .string).toJson p.processKey),
    ("cases", (Codec.option (.list TestCase.codec)).toJson p.cases)]

def codec : Codec TestPlan := .record fields {} toJson

end TestPlan
end RobotDesk.Envelope
