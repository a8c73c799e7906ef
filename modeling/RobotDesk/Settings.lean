import RobotDesk.Failure
import RobotDesk.Number.Extended

/-!
The settings of a desk: whether it works with the simulation or with a real orchestrator, and the
tunables of each.
-/
namespace RobotDesk

structure Settings where
  simulated : Bool := true
  baseUrl : String := "https://orchestrator.example.com"
  tenant : String := "default"
  apiKey : String := ""
  timeoutSecs : Nat := 30
  capacity : Nat := 10000
  ttlSecs : Nat := 3600
  /-- The share of simulated jobs that fault; one in ten. -/
  failureRate : Number.Extended := .finite (.ofDecimal false 1 (-1))

namespace Settings

/-- Whether a text begins as a web address does. -/
def isWebAddress (s : String) : Bool :=
  "http://".toList.isPrefixOf s.toList || "https://".toList.isPrefixOf s.toList

/-- What is wrong with the settings of the selected mode, if anything is. -/
def problem? (s : Settings) : Option String :=
  if s.simulated then
    if s.capacity = 0 then some "mock_job_capacity must be greater than 0"
    else if s.ttlSecs = 0 then some "mock_job_ttl must be greater than 0"
    else if !s.failureRate.isShare then some "mock_failure_rate must be between 0 and 1"
    else none
  else if !isWebAddress s.baseUrl then some "base_url must start with http:// or https://"
  else if s.tenant.isEmpty then some "tenant cannot be empty"
  else if s.timeoutSecs = 0 then some "request_timeout must be greater than 0"
  else none

/-- Accepts the settings, or says what is wrong. -/
def check (s : Settings) : Except Failure Unit :=
  match s.problem? with
  | some reason => .error (.invalidRequest reason)
  | none => .ok ()

end Settings
end RobotDesk
