import RobotDesk.Json.Difference
import RobotDesk.Number.Decimal
import RobotDesk.Polling
import RobotDesk.TestCase

/-!
Test runs.

To run a case, its input is staged as an asset, a job is started with the input and two marker
arguments, and the job is polled until it ends or the time for the case is over.  The ending is then
classified.  The cases of a batch run one after the other, and the first failure to talk to the
orchestrator ends the batch.

The output of a job counts as a success when one of the success markers occurs in it.  What was
expected plays no part in this; it is only set beside the actual output in the explanation of a
failure.
-/
namespace RobotDesk.Verdict

def successMarkers : List String := ["OK", "processedCount"]

def looksSuccessful (output : String) : Bool := successMarkers.any (Text.contains output ·)

/-- The explanation of a failure, with the differences when both outputs are JSON. -/
def mismatch (expected actual : String) : String :=
  "output mismatch:\n  expected: " ++ expected ++ "\n  actual: " ++ actual
    ++ String.join ((Json.textDifferences expected actual).map ("\n  - " ++ ·.text))

end RobotDesk.Verdict

namespace RobotDesk.Trial

open Time (nanosPerSecond)

variable {σ : Type}

/-- The wait between two polls and the time for a whole case, in nanoseconds, and how many polls are
followed if there is no wait between them. -/
structure Settings where
  interval : Nat := nanosPerSecond
  deadline : Nat := 60 * nanosPerSecond
  patience : Nat := 100000
deriving DecidableEq, Repr, Inhabited

/-- The asset under which the input of a case is staged. -/
def stagedInput (botId : String) (c : TestCase) : AssetValue where
  name := "test_input_" ++ botId ++ "_" ++ c.caseId
  value := c.inputData.toJson.render

/-- The arguments of the job for a case: two markers, and the input over them. -/
def arguments (c : TestCase) : Members :=
  c.inputData.overlay (.ofPairs [("testMode", .bool true), ("testCaseId", .string c.caseId)])

/-- What a case came to. -/
structure Finding where
  status : TestOutcome
  actual : String
  detail : Option String
deriving DecidableEq, Repr

/-- What a faulted job gave. -/
def faultText (job : JobRecord) : String :=
  match job.outputArguments.bind (Members.get? "result") with
  | some (.string s) => s
  | _ => "execution error"

/-- The output of a job as text. -/
def outputText (job : JobRecord) : String :=
  match job.outputArguments with
  | some output => output.toJson.render
  | none => "no output"

/-- Classifies the ending of a job. -/
def classify (deadline : Nat) (expected : String) : Ending → Finding
  | .timedOut _ =>
    ⟨.error, "", some ("timeout: job did not finish within " ++
      (deadline / nanosPerSecond).repr ++ " seconds")⟩
  | .finished job =>
    if job.status = .faulted then
      ⟨.error, faultText job, some ("job faulted: " ++ job.info.getD "unknown")⟩
    else
      let actual := outputText job
      if Verdict.looksSuccessful actual then ⟨.pass, actual, none⟩
      else ⟨.fail, actual, some (Verdict.mismatch expected actual)⟩

/-- A time in nanoseconds, as seconds with one decimal place. -/
def durationText (time : Nat) : String :=
  let whole := Number.Binary64.ofNat (time / nanosPerSecond)
  let part := (Number.Binary64.ofNat (time % nanosPerSecond)).div
    (Number.Binary64.ofNat nanosPerSecond)
  Number.oneDecimal (whole.add part) ++ "s"

/-- The request that starts the job for a case. -/
def request (processKey : String) (c : TestCase) : JobRequest where
  processKey := processKey
  inputArguments := arguments c

/-- How the job for a case went: when its input was staged, the job as it was started, and how
polling it ended. -/
structure Course where
  begun : Nat
  job : JobRecord
  ending : Ending
deriving Repr

/-- Stages the input of a case, starts its job and polls it; the deadline is set before that. -/
def follow (b : Backend σ) (s : Settings) (botId processKey : String) (c : TestCase) :
    Work σ Course := do
  let begun ← Work.now
  let deadline ← Work.later s.deadline
  Desk.setAsset b (stagedInput botId c)
  let job ← Desk.startJob b (request processKey c)
  let ending ← Polling.untilTerminal b s.interval s.patience deadline job
  return ⟨begun, job, ending⟩

/-- The result of a case, as of a time and date. -/
def Course.result (r : Course) (s : Settings) (botId : String) (c : TestCase) (now : Nat)
    (date : Time.Timestamp) : TestResult :=
  let finding := classify s.deadline c.expectedOutput r.ending
  { jobId := r.job.jobId
    botId := botId
    caseId := c.caseId
    status := finding.status
    actualOutput := finding.actual
    expectedOutput := c.expectedOutput
    diffDetail := finding.detail
    duration := durationText (now - r.begun)
    timestamp := date }

/-- Runs one case. -/
def runCase (b : Backend σ) (s : Settings) (botId processKey : String) (c : TestCase) :
    Work σ TestResult := do
  let course ← follow b s botId processKey c
  let w ← get
  return course.result s botId c w.now w.clock

/-- The results of a batch, and their tally. -/
structure Report where
  summary : TestSummary := {}
  results : List TestResult := []
deriving DecidableEq, Repr, Inhabited

/-- A report with one more result. -/
def Report.add (r : Report) (result : TestResult) : Report :=
  ⟨r.summary.record result.status, r.results ++ [result]⟩

@[simp] theorem Report.results_add (r : Report) (result : TestResult) :
    (r.add result).results = r.results ++ [result] := rfl

@[simp] theorem Report.summary_add (r : Report) (result : TestResult) :
    (r.add result).summary = r.summary.record result.status := rfl

/-- Runs cases in their order. -/
def runBatch (b : Backend σ) (s : Settings) (botId processKey : String) (cases : List TestCase) :
    Work σ Report :=
  cases.foldlM (fun report c => return report.add (← runCase b s botId processKey c)) {}

end RobotDesk.Trial
