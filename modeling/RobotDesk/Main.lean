import RobotDesk.CommandLine.Task
import RobotDesk.Number.Power
import RobotDesk.Workplace
import Std.Time.DateTime.Timestamp

/-!
The desk as a program.

Everything is decided before anything is shown: the arguments, the environment and the test plan are
read first, the work is then carried out in the time of its own session, and the program waits as
long as the session lasted.  The program has no network of its own, so that a real orchestrator is
always unreachable from it.
-/
namespace RobotDesk.Main

open CommandLine

/-- What is said when the arguments are not understood. -/
def usage : String :=
  "usage: [options] job start|get|list ... | asset get|set ... | test run ... | health"

/-- The date and time. -/
def now : IO Time.Timestamp := do
  let t ← Std.Time.Timestamp.now
  let epoch : Time.Timestamp := ⟨0, 0, 0⟩
  return (epoch.add? t.toNanosecondsSinceUnixEpoch.val).getD epoch

/-- The environment variables that options look at. -/
def readEnvironment : IO (String → Option String) := do
  let names := settingsOptions.filterMap (·.envName)
  let values ← names.mapM fun name => do return (name, ← IO.getEnv name)
  return fun name => (values.find? (·.1 = name)).bind (·.2)

/-- What is wrong with a file. -/
def faultOf : IO.Error → FileFault
  | .inappropriateType _ 20 _ => .notFolder
  | .inappropriateType .. => .isFolder
  | .noFileOrDirectory .. => .absent
  | .invalidArgument _ 36 _ => .nameTooLong
  | .permissionDenied .. => .denied
  | .userError _ => .notText
  | e => .other (toString e)

/-- The content of a file, or what is wrong with it. -/
def readContent (path : String) : IO (Except FileFault String) := do
  if path.toList.contains '\x00' then return .error .zeroInName
  try
    return .ok (← IO.FS.readFile path)
  catch e =>
    return .error (faultOf e)

/-- The file that a request needs. -/
def readFiles : Request → IO (String → Except FileFault String)
  | .runTests plan _ _ _ => do
    let content ← readContent plan
    return fun _ => content
  | _ => return fun _ => .error .absent

/-- Chance, from a seed. -/
def draws (seed number : Nat) : Simulation.Draw :=
  let (fault, g) := randNat (mkStdGen (seed + number)) 0 (Number.twoTo 64 - 1)
  ⟨fault, (randNat g 0 49).1⟩

/-- Tells what went wrong. -/
def report : Trouble → IO Unit
  | [] => return
  | first :: causes => do
    IO.eprintln ("Error: " ++ first)
    unless causes.isEmpty do
      IO.eprintln "\nCaused by:"
      for cause in causes do IO.eprintln ("    " ++ cause)

/-- Carries out what was asked for. -/
def carryOut (i : Invocation) : IO Showing := do
  let files ← readFiles i.request
  let seed ← IO.rand 0 (Number.twoTo 31)
  let place : Workplace Unit := ⟨i.settings, ← now, draws seed, .down⟩
  let (showing, elapsed, _) := place.run () (i.perform files)
  IO.sleep (elapsed / 1000000).toUInt32
  return showing

end RobotDesk.Main

def main (args : List String) : IO UInt32 := do
  match RobotDesk.CommandLine.Invocation.parse (← RobotDesk.Main.readEnvironment) args with
  | .error e =>
    IO.eprintln RobotDesk.Main.usage
    return e.exitCode.toUInt32
  | .ok i =>
    let showing ← RobotDesk.Main.carryOut i
    IO.print (showing.text (← (← IO.getStdout).isTty))
    RobotDesk.Main.report showing.trouble
    return showing.exitCode.toUInt32
