import RobotDesk.Asset
import RobotDesk.CommandLine.Grammar
import RobotDesk.Job
import RobotDesk.Number.Power
import RobotDesk.Settings

/-!
The values that options take, and the options that set up a desk.
-/
namespace RobotDesk.CommandLine

/-- A whole number below `2 ^ 64`: digits, with an optional plus sign. -/
def wholeNumber? (s : String) : Option Nat :=
  let digits := match s.toList with
    | '+' :: cs => cs
    | cs => cs
  let n := digits.foldl (fun n c => 10 * n + (c.toNat - 48)) 0
  if digits.isEmpty || !digits.all Char.isDigit || Number.twoTo 64 ≤ n then none else some n

/-- An argument of a job, `key=value`; the value is a JSON value if it spells one, and else a
string. -/
def pair? (s : String) : Option (String × Document) :=
  match s.toList.dropWhile (· ≠ '=') with
  | [] => none
  | _ :: raw =>
    let raw := String.ofList raw
    some (String.ofList (s.toList.takeWhile (· ≠ '=')), (Json.parse? raw).getD (.string raw))

/-- An option whose value has to be readable. -/
def typed {α : Type} (name : String) (read : String → Option α)
    (short : Option Char) (envName : Option String) : Parameter where
  name := name
  short := short
  envName := envName
  problem? s := if (read s).isSome then none else some .badValue

/-- An option with any text as its value. -/
def plain (name : String) (short : Option Char) (envName : Option String) : Parameter where
  name := name
  short := short
  envName := envName

/-- The options that set up a desk. -/
def settingsOptions : List Parameter :=
  [plain "mock" none (some "FERRY_USE_MOCK"),
   plain "base-url" none (some "FERRY_ORCHESTRATOR_URL"),
   plain "tenant" none (some "FERRY_TENANT"),
   plain "api-key" none (some "FERRY_API_KEY"),
   typed "request-timeout-secs" wholeNumber? none (some "FERRY_REQUEST_TIMEOUT"),
   typed "mock-job-capacity" wholeNumber? none (some "FERRY_MOCK_JOB_CAPACITY"),
   typed "mock-job-ttl-secs" wholeNumber? none (some "FERRY_MOCK_JOB_TTL"),
   typed "mock-failure-rate" Number.Extended.ofText? none (some "FERRY_MOCK_FAILURE_RATE")]

namespace Parsed

/-- The value of an option that has a reader, or its default. -/
def read {α : Type} (p : Parsed) (name : String) (reader : String → Option α) (default_ : α) : α :=
  ((p.value? name).bind reader).getD default_

/-- The settings of the desk; anything but `false` selects the simulation. -/
def settings (p : Parsed) : Settings :=
  let d : Settings := {}
  { simulated := p.value? "mock" ≠ some "false"
    baseUrl := (p.value? "base-url").getD d.baseUrl
    tenant := (p.value? "tenant").getD d.tenant
    apiKey := (p.value? "api-key").getD d.apiKey
    timeoutSecs := p.read "request-timeout-secs" wholeNumber? d.timeoutSecs
    capacity := p.read "mock-job-capacity" wholeNumber? d.capacity
    ttlSecs := p.read "mock-job-ttl-secs" wholeNumber? d.ttlSecs
    failureRate := p.read "mock-failure-rate" Number.Extended.ofText? d.failureRate }

end Parsed
end RobotDesk.CommandLine
