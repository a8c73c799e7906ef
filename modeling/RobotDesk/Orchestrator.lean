import RobotDesk.Backend
import RobotDesk.OData.Filter
import RobotDesk.OData.Row
import RobotDesk.Wire.Exchange

/-!
The real orchestrator: which request is sent for a call, and what its response means.

Every request carries the tenant and the credential.  Nothing is tried twice: when there is no
response the orchestrator is unreachable, and a status that is no success is a refusal, except that
a job which is not there is not found.  The rows of a listing that cannot be understood are left out
of it.
-/
namespace RobotDesk.Orchestrator

open Wire

/-- Where the orchestrator is, and how a desk identifies itself. -/
structure Access where
  baseUrl : String
  tenant : String
  apiKey : String
deriving DecidableEq, Repr

/-- A text without the slashes at its end. -/
def trimSlashes (s : String) : String :=
  String.ofList (s.toList.reverse.dropWhile (· = '/')).reverse

/-- The access with an address as typed; slashes at its end do not count. -/
def access (baseUrl tenant apiKey : String) : Access := ⟨trimSlashes baseUrl, tenant, apiKey⟩

namespace Access

def headers (a : Access) : Headers :=
  [("Content-Type", "application/json"), ("X-AKABOT-TenantName", a.tenant),
   ("Authorization", "Bearer " ++ a.apiKey)]

/-- A request to an address below the base, if the whole is an address. -/
def request? (a : Access) (hosts : Hosts) (method : Method) (path : String)
    (parameter : Option (String × String)) (body : Option Json) : Option Request := do
  let url ← Url.ofText? hosts (a.baseUrl ++ path)
  let url := match parameter with
    | some (name, value) => url.withParameter name value
    | none => url
  return ⟨method, url, a.headers, body.map Json.render⟩

end Access

/-- The body that starts a job; the arguments travel as text. -/
def startBody (r : JobRequest) : Json :=
  .object [("startInfo", .object
    [("InputArguments", .string r.inputArguments.toJson.render),
     ("ReleaseKey", .string r.processKey),
     ("RobotIds", .array (r.robotName.map Json.string).toList),
     ("Strategy", .string "Specific")])]

/-- The body that sets an asset. -/
def assetBody (a : AssetValue) : Json :=
  .object [("Name", .string a.name), ("Value", .string a.value), ("ValueType", .string a.type.name)]

/-- The request for a call. -/
def Access.requestFor? (a : Access) (hosts : Hosts) : Call → Option Request
  | .startJob r => a.request? hosts .post "/api/v1/odata/Jobs/StartJobs" none (some (startBody r))
  | .getJob jobId => a.request? hosts .get ("/api/v1/odata/Jobs(" ++ jobId ++ ")") none none
  | .listJobs f =>
    a.request? hosts .get "/api/v1/odata/Jobs" ((OData.jobExpression? f).map ("$filter", ·)) none
  | .setAsset asset =>
    a.request? hosts .post "/api/v1/odata/Assets" none (some (assetBody asset))
  | .getAsset name =>
    a.request? hosts .get "/api/v1/odata/Assets" (some ("$filter", OData.assetExpression name)) none
  | .health => a.request? hosts .get "/api/status" none none

/-- Refuses a status that is no success. -/
def checked (response : Response) (missing : Option String) : Except Failure Unit :=
  if response.isSuccess then .ok ()
  else match response.status, missing with
    | 404, some what => .error (.notFound what)
    | status, _ => .error (.refused status (response.text?.getD "Unknown error"))

/-- Reads the body of a response. -/
def body {α : Type} (c : Json.Codec α) (response : Response) : Except Failure α :=
  let unread : Failure := .undecodable ("Failed to parse JSON response: " ++ elided)
  if response.complete then
    match c.decode (Text.ofBytes response.body) with
    | .ok v => .ok v
    | .error _ => .error unread
  else .error unread

/-- The job that an answer to starting one speaks of: the first of its rows, or itself. -/
def startedRow (data : Json) : Except Failure Json :=
  match data.member? "value" with
  | some (.array []) => .error (.undecodable "StartJobs returned no jobs")
  | some (.array (row :: _)) => .ok row
  | _ => .ok data

/-- The record of a started job. -/
def startedJob (processKey : String) (data : Json) : Except Failure JobRecord := do
  match OData.JobRow.codec.ofJson? (← startedRow data) with
  | some row => row.record? (some processKey)
  | none => .error (.undecodable ("StartJobs response: " ++ elided))

/-- The records of the rows that can be understood. -/
def listed (processKey : Option String) (rows : List OData.JobRow) : List JobRecord :=
  rows.filterMap fun row => (row.record? processKey).toOption

/-- What a response to a call means. -/
def interpret : (call : Call) → Response → Except Failure call.Answer
  | .startJob r, response => do
    checked response none
    startedJob r.processKey (← body .json response)
  | .getJob jobId, response => do
    checked response (some ("Job not found: " ++ jobId))
    (← body OData.JobRow.codec response).record? none
  | .listJobs f, response => do
    checked response none
    return listed f.processKey (← body (OData.Rows.codec OData.JobRow.codec) response).value
  | .setAsset _, response => checked response none
  | .getAsset name, response => do
    checked response none
    match (← body (OData.Rows.codec OData.AssetRow.codec) response).value with
    | [] => .error (.notFound ("Asset not found: " ++ name))
    | row :: _ => row.asset?
  | .health, response => checked response none

/-- The orchestrator behind a network. -/
def orchestrator {ν : Type} (n : Network ν) (a : Access) : Backend ν where
  simulated := false
  serve call _ s :=
    match a.requestFor? n.hosts call with
    | none => ⟨.error (.unreachable elided), s, 0⟩
    | some request =>
      match n.exchange request s with
      | (none, s) => ⟨.error (.unreachable elided), s, 0⟩
      | (some response, s) => ⟨interpret call response, s, 0⟩

end RobotDesk.Orchestrator
