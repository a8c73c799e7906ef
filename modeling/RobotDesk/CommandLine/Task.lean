import RobotDesk.CommandLine.Files
import RobotDesk.CommandLine.Invocation
import RobotDesk.CommandLine.Scene
import RobotDesk.Envelope.Request

/-!
Carrying out what a command line asks for.

A task is a request whose test plan, if it has one, has been read.  While it is carried out it
prints JSON values if it is asked to, and scenes for people otherwise.  What goes wrong is a chain
of messages, the outermost first.
-/
namespace RobotDesk.CommandLine

open Time (nanosPerSecond)

variable {σ : Type}

inductive Task where
  | startJob (request : JobRequest) (wait : Option Nat)
  | getJob (jobId : String)
  | listJobs (filter : JobFilter)
  | getAsset (name : String)
  | setAsset (asset : AssetValue)
  | runTests (botId processKey : String) (cases : List TestCase) (deadline : Nat)
  | health

/-- A chain of messages, the outermost first. -/
abbrev Trouble := List String

/-- What was printed, what went wrong, and why the command was broken off, if it was. -/
structure Showing where
  prints : List Print := []
  trouble : Trouble := []
  stopped : Option Stop := none

namespace Showing

/-- A task that failed is told by the exit code, and one that was broken off by another. -/
def exitCode (s : Showing) : Nat :=
  if s.stopped.isSome then 101 else if s.trouble.isEmpty then 0 else 1

/-- All that is printed. -/
def text (color : Bool) (s : Showing) : String := String.join (s.prints.map (Print.text color))

end Showing

/-- Reads a test plan; `files` gives the content of a file, or what is wrong with it. -/
def loadPlan (files : String → Except FileFault String) (path : String)
    (botId processKey : Option String) (deadline : Nat) : Except Trouble Task :=
  match files path with
  | .error fault => .error ["Failed to read test plan " ++ path, fault.message]
  | .ok content =>
    match Envelope.TestPlan.codec.decode (Text.glyphs content) with
    | .error _ => .error ["Invalid test plan " ++ path]
    | .ok plan =>
      match botId.or plan.botId, processKey.or plan.processKey with
      | none, _ => .error ["Test plan has no botId (use --bot-id)"]
      | _, none => .error ["Test plan has no processKey (use --process-key)"]
      | some botId, some processKey =>
        let cases := plan.cases.getD []
        if cases.isEmpty then .error ["Test plan " ++ path ++ " has no cases"]
        else .ok (.runTests botId processKey cases deadline)

/-- The task of a request. -/
def Task.of? (files : String → Except FileFault String) : Request → Except Trouble Task
  | .startJob request wait => .ok (.startJob request wait)
  | .getJob jobId => .ok (.getJob jobId)
  | .listJobs filter => .ok (.listJobs filter)
  | .getAsset name => .ok (.getAsset name)
  | .setAsset asset => .ok (.setAsset asset)
  | .runTests plan botId processKey deadline => loadPlan files plan botId processKey deadline
  | .health => .ok .health

/-- The settings, if they are in order. -/
def checkSettings (s : Settings) : Except Trouble Unit :=
  match s.check with
  | .ok () => .ok ()
  | .error f => .error ["Invalid gateway configuration", f.message]

/-- Polls a job each second until it has ended, for some seconds. -/
def awaitEnd (b : Backend σ) (wait : Nat) (job : JobRecord) : Work σ Ending := do
  let deadline ← Work.later (wait * nanosPerSecond)
  Polling.untilTerminal b nanosPerSecond 0 deadline job

theorem awaitEnd_of_le {b : Backend σ} {wait : Nat} {job : JobRecord} {w : World σ}
    (h : w.now + wait * nanosPerSecond ≤ w.last) : awaitEnd b wait job w =
      Polling.untilTerminal b nanosPerSecond 0 (w.now + wait * nanosPerSecond) job w :=
  bind_of_ok (Work.later_of_le h) _

theorem awaitEnd_of_lt {b : Backend σ} {wait : Nat} {job : JobRecord} {w : World σ}
    (h : w.last < w.now + wait * nanosPerSecond) :
    awaitEnd b wait job w = (.error .overflow, w) :=
  bind_of_error (Work.later_of_lt h) _

/-- The showing that a piece of work comes to.  Something may be printed before it; a failure is
told behind a context. -/
def finish {α : Type} (work : Work σ α) (context : List String) (before : List Print)
    (after : α → Showing) : StateM (World σ) Showing := fun w =>
  match work w with
  | (.ok v, w) => ({ after v with prints := before ++ (after v).prints }, w)
  | (.error (.failed f), w) => ({ prints := before, trouble := context ++ [f.message] }, w)
  | (.error stop, w) => ({ prints := before, stopped := some stop }, w)

section

variable (b : Backend σ) (json : Bool)

/-- What is printed of a job: its record, or a scene with it. -/
def printed (scene : JobRecord → Scene) (job : JobRecord) : Print :=
  if json then .value job.toJson else .scene (scene job)

/-- What is shown of a job that was waited for. -/
def ended (wait : Nat) : Ending → Showing
  | .finished job => { prints := [printed json .details job] }
  | .timedOut job =>
    { prints := [printed json .details job]
      trouble := ["Job " ++ job.jobId ++ " did not finish within " ++ wait.repr ++ " seconds"] }

/-- Waits for the end of a job for some seconds; people are told before that. -/
def waitFor (wait : Nat) (job : JobRecord) : StateM (World σ) Showing :=
  finish (awaitEnd b wait job) ["Failed to poll job status"]
    (if json then [] else [.scene (.waiting job)]) (ended json wait)

def startTask (request : JobRequest) (wait : Option Nat) : StateM (World σ) Showing := fun w =>
  match Desk.startJob b request w with
  | (.error f, w) =>
    ({ trouble := ["Failed to start job for " ++ request.processKey, f.message] }, w)
  | (.ok job, w) =>
    match wait with
    | none => ({ prints := [printed json .started job] }, w)
    | some wait => waitFor b json wait job w

def listTask (filter : JobFilter) : StateM (World σ) Showing :=
  finish (Desk.listJobs b filter) [] [] fun jobs =>
    if json then { prints := [.value (.array (jobs.map (·.toJson)))] }
    else { prints := [.scene (.jobs jobs)] }

def getAssetTask (name : String) : StateM (World σ) Showing :=
  finish (Desk.getAsset b name) [] [] fun a =>
    if json then { prints := [.value a.toJson] } else { prints := [.scene (.asset b.simulated a)] }

/-- An asset that was set is told to people only. -/
def setAssetTask (asset : AssetValue) : StateM (World σ) Showing :=
  finish (Desk.setAsset b asset) ["Failed to set asset " ++ asset.name] [] fun _ =>
    if json then {} else { prints := [.scene (.saved asset.name)] }

/-- What is shown of a batch; every case has to pass. -/
def reported (simulated : Bool) (botId : String) (r : Trial.Report) : Showing :=
  let unsuccessful := r.summary.fail + r.summary.error
  { prints :=
      if json then
        [.value (Envelope.TestReport.toJson ⟨true, simulated, botId, r.summary, r.results⟩)]
      else [.scene (.report r)]
    trouble :=
      if unsuccessful = 0 then []
      else [unsuccessful.repr ++ " of " ++ r.summary.total.repr ++ " case(s) did not pass"] }

/-- Runs cases; people are told before they start. -/
def testTask (botId processKey : String) (cases : List TestCase) (deadline : Nat) :
    StateM (World σ) Showing :=
  finish (Trial.runBatch b { deadline := deadline * nanosPerSecond } botId processKey cases)
    ["Test run aborted"]
    (if json then [] else [.scene (.testing b.simulated cases.length botId processKey)])
    (reported json b.simulated botId)

/-- What is printed of the health of an orchestrator. -/
def healthPrint (simulated healthy : Bool) : Print :=
  if json then .value (Envelope.Health.report simulated healthy).toJson
  else .scene (.health simulated healthy)

def healthTask : StateM (World σ) Showing := fun w =>
  match Desk.health b w with
  | (.ok _, w) => ({ prints := [healthPrint json b.simulated true] }, w)
  | (.error f, w) =>
    ({ prints := [healthPrint json b.simulated false], trouble := [f.message] }, w)

/-- Carries a task out. -/
def Task.perform : Task → StateM (World σ) Showing
  | .startJob request wait => startTask b json request wait
  | .getJob jobId =>
    finish (Desk.getJob b jobId) [] [] fun job => { prints := [printed json .details job] }
  | .listJobs filter => listTask b json filter
  | .getAsset name => getAssetTask b json name
  | .setAsset asset => setAssetTask b json asset
  | .runTests botId processKey cases deadline =>
    testTask b json botId processKey cases deadline
  | .health => healthTask b json

end

/-- Reads what a request needs and checks the settings; what is wrong with a plan comes first. -/
def prepare (files : String → Except FileFault String) (i : Invocation) : Except Trouble Task := do
  let task ← Task.of? files i.request
  checkSettings i.settings
  return task

/-- Carries out what a command line asks for. -/
def Invocation.perform (files : String → Except FileFault String) (i : Invocation)
    (b : Backend σ) : StateM (World σ) Showing :=
  match prepare files i with
  | .error trouble => return { trouble := trouble }
  | .ok task => task.perform b i.json

end RobotDesk.CommandLine
