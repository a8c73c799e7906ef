import RobotDesk.Endpoint.Target
import RobotDesk.Envelope.Request
import RobotDesk.Envelope.Response
import RobotDesk.Failure
import RobotDesk.Wire.Exchange
import RobotDesk.Wire.MediaType

/-!
Requests to the HTTP service, and its responses.

A request has a method and header names that are tokens, a target that can be read, and header
values without control characters.  A body has to say that it is JSON, which is checked first, and
must not be larger than two mebibytes.  The fields of a query may stand once each; others are not
looked at.
-/
namespace RobotDesk.Endpoint

open Json

structure Request where
  method : String := "GET"
  target : Target
  headers : Wire.Headers := []
  body : List UInt8 := []

structure Response where
  status : Nat
  headers : Wire.Headers := []
  body : Option Json := none

namespace Response

/-- A response with a JSON body. -/
def json (status : Nat) (body : Json) : Response :=
  ⟨status, [("content-type", "application/json")], some body⟩

/-- The status for a failure. -/
def statusOf : Failure → Nat
  | .invalidRequest _ => 400
  | .notFound _ => 404
  | _ => 500

/-- What a client is told about a failure. -/
def textOf : Failure → String
  | .invalidRequest reason => reason
  | .notFound what => what
  | other => other.message

/-- The response for a failure. -/
def ofFailure (f : Failure) : Response :=
  json (statusOf f) (Envelope.Refusal.toJson ⟨false, textOf f⟩)

end Response

/-- The largest body that is read, in bytes. -/
def bodyLimit : Nat := 2097152

/-- Whether a list is longer than a limit. -/
def exceeds {α : Type} : Nat → List α → Bool
  | _, [] => false
  | 0, _ :: _ => true
  | limit + 1, _ :: rest => exceeds limit rest

/-- What is said of a body that cannot be read. -/
def unreadable : ReadError → String
  | .malformed | .ended => "Failed to parse the request body as JSON: " ++ elided
  | .mismatched => "Failed to deserialize the JSON body into the target type: " ++ elided

/-- Whether a text is a token. -/
def isToken (s : String) : Bool := !s.isEmpty && s.toList.all Wire.isTokenChar

namespace Request

/-- A request from its parts, unless one of them cannot be sent. -/
def ofParts? (method target : String) (headers : Wire.Headers) (body : List UInt8) :
    Option Request :=
  if isToken method && headers.all fun (name, value) => isToken name && Wire.Headers.canSend value
  then (Target.ofText? target).map fun t => ⟨method, t, headers, body⟩
  else none

/-- Whether the body is said to be JSON. -/
def bringsJson (r : Request) : Bool :=
  ((Wire.Headers.get? "content-type" r.headers).bind Wire.MediaType.ofText?).any (·.isJson)

/-- Reads the body. -/
def readBody {α : Type} (r : Request) (c : Codec α) : Except Failure α :=
  if !r.bringsJson then
    .error (.invalidRequest "Expected request with \x60Content-Type: application/json\x60")
  else if exceeds bodyLimit r.body then
    .error (.invalidRequest "Failed to buffer the request body: length limit exceeded")
  else match c.decode (Text.ofBytes r.body) with
    | .ok v => .ok v
    | .error e => .error (.invalidRequest (unreadable e))

/-- The value of a query field, unless it stands there twice. -/
def field (r : Request) (name : String) : Except Failure (Option String) :=
  match (Wire.Form.pairs r.target.query).filter (·.1 = name) with
  | [] => .ok none
  | [(_, value)] => .ok (some value)
  | _ => .error (.invalidRequest ("Failed to deserialize query string: " ++ elided))

def jobsQuery (r : Request) : Except Failure Envelope.JobsQuery := do
  return ⟨← r.field "jobId", ← r.field "processKey", ← r.field "status"⟩

def assetQuery (r : Request) : Except Failure Envelope.AssetQuery := do
  return ⟨← r.field "name"⟩

end Request
end RobotDesk.Endpoint
