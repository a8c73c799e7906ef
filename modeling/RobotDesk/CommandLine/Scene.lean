import RobotDesk.CommandLine.Paint
import RobotDesk.Envelope.Response
import RobotDesk.Text.Basic
import RobotDesk.Trial

/-!
What a command prints: scenes for people, or JSON values for programs.
-/
namespace RobotDesk.CommandLine

/-- Something to be shown to people. -/
inductive Scene where
  /-- A job has been started. -/
  | started (job : JobRecord)
  /-- A job has been started, and its end is waited for. -/
  | waiting (job : JobRecord)
  | details (job : JobRecord)
  | jobs (jobs : List JobRecord)
  | asset (simulated : Bool) (asset : AssetValue)
  | saved (name : String)
  | health (simulated healthy : Bool)
  /-- Test cases are about to run. -/
  | testing (simulated : Bool) (count : Nat) (botId processKey : String)
  | report (report : Trial.Report)

/-- A text and the end of its line. -/
def line (s : String) : String := s ++ "\n"

namespace Scene

section
variable (color : Bool)

def statusText (status : JobStatus) : String :=
  let style := match status with
    | .pending => .yellow
    | .running => .cyan
    | .successful => .green
    | .faulted => .red
    | .stopped => .dimmed
  paint color [style] status.name

/-- The lines about the end of a job, and how long it ran. -/
def endText (job : JobRecord) : String :=
  match job.endedAt with
  | none => ""
  | some ended =>
    line ("  Ended:     " ++ ended.shortText) ++
      match job.startedAt with
      | none => ""
      | some began =>
        line ("  Duration:  " ++ toString ((ended.since began).tdiv Time.nanosPerSecond) ++ "s")

def detailsText (job : JobRecord) : String :=
  line (paint color [.bold] "Job Details:")
    ++ line ("  ID:        " ++ paint color [.cyan] job.jobId)
    ++ line ("  Process:   " ++ job.processKey)
    ++ line ("  Status:    " ++ statusText color job.status)
    ++ line ("  Created:   " ++ job.createdAt.shortText)
    ++ (job.startedAt.elim "" fun t => line ("  Started:   " ++ t.shortText))
    ++ endText job
    ++ (job.info.elim "" fun info => line ("  Info:      " ++ paint color [.dimmed] info))
    ++ (job.outputArguments.elim "" fun output =>
      "\n" ++ line (paint color [.bold] "Output:") ++ line output.toJson.pretty)

def jobText (job : JobRecord) : String :=
  line ("  " ++ paint color [.cyan] "▸" ++ " Job " ++ paint color [.dimmed] job.jobId)
    ++ line ("    Process:  " ++ paint color [.dimmed] job.processKey)
    ++ line ("    Status:   " ++ statusText color job.status)
    ++ line ("    Created:  " ++ paint color [.dimmed] job.createdAt.shortText)
    ++ "\n"

def jobsText (jobs : List JobRecord) : String :=
  if jobs.isEmpty then line (paint color [.yellow] "No jobs found.")
  else line (paint color [.bold] ("Found " ++ jobs.length.repr ++ " job(s):")) ++ "\n"
    ++ String.join (jobs.map (jobText color))

def assetText (simulated : Bool) (a : AssetValue) : String :=
  line (paint color [.bold] "Asset:")
    ++ line ("  Name:  " ++ paint color [.cyan] a.name)
    ++ line ("  Type:  " ++ a.type.name)
    ++ line ("  Value: " ++ a.value)
    ++ if simulated then line (paint color [.dimmed] "  (simulated value)") else ""

def healthText (simulated healthy : Bool) : String :=
  let mode := if simulated then " (mock)" else " (real)"
  line (if healthy then paint color [.green] "✓" ++ " Orchestrator healthy" ++ mode
    else paint color [.red] "✗" ++ " Orchestrator unreachable" ++ mode)

def markerText : TestOutcome → String
  | .pass => paint color [.green] "✓ pass "
  | .fail => paint color [.red] "✗ fail "
  | .error => paint color [.yellow] "! error"

def resultText (r : TestResult) : String :=
  line ("  " ++ markerText color r.status ++ " " ++ paint color [.bold] r.caseId ++ " "
      ++ paint color [.dimmed] r.jobId ++ " " ++ paint color [.dimmed] r.duration)
    ++ String.join (((r.diffDetail.map Text.lines).getD []).map fun l =>
      line ("      " ++ paint color [.dimmed] l))

def reportText (r : Trial.Report) : String :=
  String.join (r.results.map (resultText color))
    ++ line (paint color [.bold] "Summary:" ++ " " ++ r.summary.total.repr ++ " total, "
      ++ paint color [.green] r.summary.pass.repr ++ " pass, "
      ++ paint color [.red] r.summary.fail.repr ++ " fail, "
      ++ paint color [.yellow] r.summary.error.repr ++ " error")

def testingText (simulated : Bool) (count : Nat) (botId processKey : String) : String :=
  line (paint color [.bold] ("Running " ++ count.repr ++ " case(s) for bot " ++ botId ++ " against "
    ++ processKey ++ if simulated then " (mock)" else "")) ++ "\n"

/-- The text of a scene for people. -/
def text : Scene → String
  | started job =>
    line (paint color [.bold, .green] "✓ Job started successfully!") ++ detailsText color job
  | waiting job =>
    line (paint color [.cyan] "▸" ++ " Job " ++ paint color [.cyan] job.jobId
      ++ " started, waiting for it to finish...")
  | details job => detailsText color job
  | jobs js => jobsText color js
  | asset simulated a => assetText color simulated a
  | saved name =>
    line (paint color [.green] "✓" ++ " Asset " ++ paint color [.cyan] name ++ " saved")
  | health simulated healthy => healthText color simulated healthy
  | testing simulated count botId processKey =>
    testingText color simulated count botId processKey
  | report r => reportText color r

end

end Scene

/-- Something that is printed. -/
inductive Print where
  | scene (s : Scene)
  | value (v : Json)

namespace Print

def text (color : Bool) : Print → String
  | scene s => s.text color
  | value v => line v.pretty

end Print
end RobotDesk.CommandLine
