import RobotDesk.Address
import RobotDesk.CommandLine.Values

/-!
The command lines of the desk and of the HTTP service: what can be asked for, and how it is typed.
-/
namespace RobotDesk.CommandLine

/-- What a command line asks for. -/
inductive Request where
  /-- Start a job, and maybe wait for its end for some seconds. -/
  | startJob (request : JobRequest) (wait : Option Nat)
  | getJob (jobId : String)
  | listJobs (filter : JobFilter)
  | getAsset (name : String)
  | setAsset (asset : AssetValue)
  /-- Run a plan on file, with what overrides it, allowing each case some seconds. -/
  | runTests (plan : String) (botId processKey : Option String) (deadline : Nat)
  | health

structure Invocation where
  settings : Settings
  json : Bool
  request : Request

namespace Invocation

/-- The switch that is understood everywhere. -/
def jsonSwitch : Parameter := { name := "json", isSwitch := true }

/-- A path must not be empty. -/
def planOperand : Parameter where
  name := "plan"
  problem? s := if s.isEmpty then some .missingValue else none

def startGrammar : Grammar :=
  .mk [plain "robot" (some 'r') none,
       { typed "arg" pair? (some 'a') none with repeatable := true },
       { name := "wait", short := some 'w', isSwitch := true },
       typed "timeout" wholeNumber? none none,
       jsonSwitch]
    [{ name := "process_key" }] []

def getJobGrammar : Grammar := .mk [jsonSwitch] [{ name := "id" }] []

def listGrammar : Grammar :=
  .mk [plain "process-key" (some 'p') none, typed "status" JobStatus.ofName? (some 's') none,
       jsonSwitch] [] []

def getAssetGrammar : Grammar := .mk [jsonSwitch] [{ name := "name" }] []

def setAssetGrammar : Grammar :=
  .mk [typed "type" AssetType.ofName? (some 't') none, jsonSwitch]
    [{ name := "name" }, { name := "value" }] []

def runGrammar : Grammar :=
  .mk [plain "bot-id" none none, plain "process-key" none none,
       typed "deadline" wholeNumber? none none, jsonSwitch]
    [planOperand] []

def grammar : Grammar :=
  .mk (settingsOptions ++ [jsonSwitch]) []
    [("job", .mk [jsonSwitch] []
        [("start", startGrammar), ("get", getJobGrammar), ("list", listGrammar)]),
     ("asset", .mk [jsonSwitch] [] [("get", getAssetGrammar), ("set", setAssetGrammar)]),
     ("test", .mk [jsonSwitch] [] [("run", runGrammar)]),
     ("health", .mk [jsonSwitch] [] [])]

/-- The seconds to wait for a job, or for a case, unless told otherwise. -/
def defaultSeconds : Nat := 60

/-- The arguments of a job: the last value of each key. -/
def jobArguments (p : Parsed) : Members := .ofPairs ((p.values "arg").filterMap pair?)

def startRequest (p : Parsed) : Request :=
  .startJob
    { processKey := (p.value? "process_key").getD ""
      robotName := p.value? "robot"
      inputArguments := jobArguments p }
    (if p.has "wait" then some (p.read "timeout" wholeNumber? defaultSeconds) else none)

/-- What the commands and options ask for. -/
def request? (p : Parsed) : Option Request :=
  match p.path with
  | ["job", "start"] => some (startRequest p)
  | ["job", "get"] => some (.getJob ((p.value? "id").getD ""))
  | ["job", "list"] =>
    some (.listJobs ⟨p.value? "process-key", (p.value? "status").bind JobStatus.ofName?⟩)
  | ["asset", "get"] => some (.getAsset ((p.value? "name").getD ""))
  | ["asset", "set"] =>
    some (.setAsset ⟨(p.value? "name").getD "", p.read "type" AssetType.ofName? .text,
      (p.value? "value").getD ""⟩)
  | ["test", "run"] =>
    some (.runTests ((p.value? "plan").getD "") (p.value? "bot-id") (p.value? "process-key")
      (p.read "deadline" wholeNumber? defaultSeconds))
  | ["health"] => some .health
  | _ => none

def parse (environment : String → Option String) (args : List String) :
    Except UsageError Invocation := do
  let p ← grammar.parse environment args
  match request? p with
  | some request => return ⟨p.settings, p.has "json", request⟩
  | none => .error .missingCommand

end Invocation

/-- What starts the HTTP service: where to listen, and the options of its desk. -/
structure Serve where
  bind : Address
  settings : Settings

namespace Serve

/-- Where the service listens unless told otherwise. -/
def defaultBind : Address := ⟨.v4 [0, 0, 0, 0], 8080⟩

def grammar : Grammar :=
  .mk (typed "bind" Address.ofText? none (some "FERRY_BIND_ADDR") :: settingsOptions) [] []

def parse (environment : String → Option String) (args : List String) :
    Except UsageError Serve := do
  let p ← grammar.parse environment args
  return ⟨p.read "bind" Address.ofText? defaultBind, p.settings⟩

end Serve
end RobotDesk.CommandLine
