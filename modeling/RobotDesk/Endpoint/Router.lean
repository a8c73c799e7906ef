import RobotDesk.Desk
import RobotDesk.Endpoint.Message
import RobotDesk.Trial

/-!
The HTTP service: which resources there are, and how each answers.

Every answer may be read from any origin.  A request with the method `OPTIONS` asks what is allowed
and reaches no resource; `HEAD` answers like `GET` without a body.  A failure is answered; work that
is broken off is not.
-/
namespace RobotDesk.Endpoint

open Envelope

variable {σ : Type}

inductive Resource where
  | health
  | jobs
  | assets
  | testRun
deriving DecidableEq, Repr

namespace Resource

def ofPath? : String → Option Resource
  | "/health" => some .health
  | "/api/akabot/jobs" => some .jobs
  | "/api/akabot/assets" => some .assets
  | "/api/test/run" => some .testRun
  | _ => none

/-- The methods that a resource answers to. -/
def allowed : Resource → String
  | .health => "GET,HEAD"
  | .jobs | .assets => "GET,HEAD,POST"
  | .testRun => "POST"

end Resource

/-- Continues with a value, or fails. -/
def need {α : Type} (e : Except Failure α) : Session σ α := fun w => (e, w)

/-- A value that must be there. -/
def required {α : Type} (v : Option α) (reason : String) : Session σ α :=
  need (match v with
    | some v => .ok v
    | none => .error (.invalidRequest reason))

/-- A text that is not blank. -/
def present (s : Option String) : Option String := s.filter (!Text.isBlankText ·)

def getJobs (b : Backend σ) (r : Request) : Session σ Json := do
  let q ← need r.jobsQuery
  match q.jobId.filter (!·.isEmpty) with
  | some jobId =>
    let job ← Desk.getJob b jobId
    return OneJob.toJson ⟨true, b.simulated, job⟩
  | none =>
    let status ← need (match q.status with
      | none => .ok none
      | some s =>
        match JobStatus.ofName? s with
        | some status => .ok (some status)
        | none => .error (.invalidRequest (JobStatus.unknown s)))
    let jobs ← Desk.listJobs b ⟨q.processKey, status⟩
    return JobList.toJson ⟨true, b.simulated, jobs⟩

def startJob (b : Backend σ) (r : Request) : Session σ Json := do
  let body ← need (r.readBody JobOrder.codec)
  let processKey ← required (present body.processKey) "processKey is required"
  let job ← Desk.startJob b ⟨processKey, body.robotName, body.inputArguments.getD .empty⟩
  return OneJob.toJson ⟨true, b.simulated, job⟩

def getAsset (b : Backend σ) (r : Request) : Session σ Json := do
  let q ← need r.assetQuery
  let name ← required (q.name.filter (!·.isEmpty)) "name is required"
  let asset ← Desk.getAsset b name
  return OneAsset.toJson ⟨true, b.simulated, asset⟩

def setAsset (b : Backend σ) (r : Request) : Session σ Json := do
  let body ← need (r.readBody AssetOrder.codec)
  let name ← required body.name "name and value are required"
  let value ← required body.value "name and value are required"
  Desk.setAsset b ⟨name, body.type.getD .text, value⟩
  return Acknowledgement.toJson ⟨true, b.simulated⟩

/-- The batch that a request asks for. -/
def batchOf (r : Request) : Session σ (String × String × List TestCase) := do
  let body ← need (r.readBody TestPlan.codec)
  let missing := "botId, processKey and cases are required"
  let botId ← required (present body.botId) missing
  let processKey ← required (present body.processKey) missing
  let cases ← required body.cases missing
  if cases.isEmpty then Session.fail (.invalidRequest "cases must not be empty")
  else return (botId, processKey, cases)

def runTests (b : Backend σ) (s : Trial.Settings) (r : Request) : Work σ Json := do
  let (botId, processKey, cases) ← (batchOf r : Session σ _)
  let report ← Trial.runBatch b s botId processKey cases
  return TestReport.toJson ⟨true, b.simulated, botId, report.summary, report.results⟩

/-- The response that a piece of work comes to. -/
def respond (work : Work σ Json) : Work σ Response := fun w =>
  match work w with
  | (.ok body, w) => (.ok (.json 200 body), w)
  | (.error (.failed f), w) => (.ok (.ofFailure f), w)
  | (.error stop, w) => (.error stop, w)

/-- Whether the orchestrator answers; it is no failure if it does not. -/
def health (b : Backend σ) : Work σ Response := fun w =>
  match Desk.health b w with
  | (.ok _, w) => (.ok (.json 200 (Health.report b.simulated true).toJson), w)
  | (.error _, w) => (.ok (.json 503 (Health.report b.simulated false).toJson), w)

/-- A response without a body. -/
def empty (status : Nat) (headers : Wire.Headers) : Work σ Response :=
  return ⟨status, headers, none⟩

def get (b : Backend σ) (r : Request) : Resource → Work σ Response
  | .health => health b
  | .jobs => respond (getJobs b r)
  | .assets => respond (getAsset b r)
  | .testRun => empty 405 [("allow", Resource.allowed .testRun)]

def post (b : Backend σ) (s : Trial.Settings) (r : Request) : Resource → Work σ Response
  | .health => empty 405 [("allow", Resource.allowed .health)]
  | .jobs => respond (startJob b r)
  | .assets => respond (setAsset b r)
  | .testRun => respond (runTests b s r)

/-- What is allowed to pages of other origins. -/
def preflight (resource : Option Resource) : Work σ Response :=
  empty 200 ((resource.map fun res => ("allow", res.allowed)).toList
    ++ [("access-control-allow-methods", "GET,POST"),
        ("access-control-allow-headers", "content-type")])

/-- The answer of a resource. -/
def answer (b : Backend σ) (s : Trial.Settings) (r : Request) : Work σ Response :=
  match r.method, Resource.ofPath? r.target.path with
  | "OPTIONS", resource => preflight resource
  | _, none => empty 404 []
  | "GET", some resource => get b r resource
  | "HEAD", some resource => do return { ← get b r resource with body := none }
  | "POST", some resource => post b s r resource
  | _, some resource => empty 405 [("allow", resource.allowed)]

/-- The answer of the service. -/
def serve (b : Backend σ) (s : Trial.Settings) (r : Request) : Work σ Response := do
  let response ← answer b s r
  return { response with
    headers := response.headers ++ [("access-control-allow-origin", "*")] }

end RobotDesk.Endpoint
