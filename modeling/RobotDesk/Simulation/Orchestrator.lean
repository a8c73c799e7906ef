import RobotDesk.Backend
import RobotDesk.Simulation.Registry

/-!
The simulated orchestrator.

Jobs are numbered from 1 on and have ids from `JOB-1001` on.  How each will end is decided when it
is started.  Assets are not kept: to set one is only acknowledged, and each name has a value made
from it.  The clock of the simulation runs with the session, or is held and moved by hand, forwards
or backwards.
-/
namespace RobotDesk.Simulation

open Time

inductive Clock where
  | running (start : Timestamp)
  | held (now : Timestamp)
deriving DecidableEq, Repr, Inhabited

namespace Clock

/-- What the clock shows when the session has lasted some nanoseconds.  A running clock stops at the
latest timestamp. -/
def read (elapsed : Nat) : Clock → Timestamp
  | .running start => (start.add? elapsed).getD Timestamp.latest
  | .held now => now

/-- A held clock moved by a duration, unless that leaves the range. -/
def move? (by_ : Duration) : Clock → Option Clock
  | .running start => some (.running start)
  | .held now => (now.add? by_).map .held

end Clock

structure State where
  issued : Nat := 0
  registry : Registry
  clock : Clock
deriving Repr

def jobId (number : Nat) : String := "JOB-" ++ (1000 + number).repr

/-- A job that has just been created. -/
def newJob (number : Nat) (processKey : String) (now : Timestamp) (outcome : Outcome) : Job where
  number := number
  jobId := jobId number
  processKey := processKey
  createdAt := now
  outcome := outcome

/-- The longest lifetime in seconds that is kept exactly. -/
def longestLifetime : Nat := 9223372036854775

/-- The lifetime of a number of seconds; a year when it is too long to be kept exactly. -/
def lifetime (secs : Nat) : Duration :=
  if secs ≤ longestLifetime then seconds secs else seconds (365 * 86400)

/-- A simulation that has not been asked anything, with a lifetime of any length. -/
def opened (capacity : Nat) (lifetime : Duration) (clock : Clock) : State where
  registry := { capacity := capacity, lifetime := lifetime }
  clock := clock

/-- A simulation that has not been asked anything, with a lifetime in seconds. -/
def fresh (capacity ttlSecs : Nat) (clock : Clock) : State :=
  opened capacity (lifetime ttlSecs) clock

/-- The value that an asset name has in the simulation. -/
def assetNamed (name : String) : AssetValue := ⟨name, .text, "mock_value_for_" ++ name⟩

def jobNotFound (jobId : String) : Failure := .notFound ("Job not found: " ++ jobId)

namespace State

/-- Takes the next number. -/
def takeNumber (s : State) : Nat × State := (s.issued + 1, { s with issued := s.issued + 1 })

/-- Takes a job into the registry. -/
def enter (s : State) (job : Job) (now : Timestamp) : State :=
  { s with registry := s.registry.insert job now }

/-- Starts a job that ends as decided for its number. -/
def start (s : State) (processKey : String) (outcome : Nat → Outcome) (now : Timestamp) :
    JobRecord × State :=
  let (number, s) := s.takeNumber
  let job := newJob number processKey now (outcome number)
  (job.snapshot, s.enter job now)

/-- Looks a job up. -/
def get (s : State) (jobId : String) (now : Timestamp) : Except Failure JobRecord × State :=
  let (found, registry) := s.registry.get jobId now
  let answer := match found with
    | some record => .ok record
    | none => .error (jobNotFound jobId)
  (answer, { s with registry := registry })

/-- Lists the jobs that a filter accepts. -/
def list (s : State) (filter : JobFilter) (now : Timestamp) : List JobRecord × State :=
  let (records, registry) := s.registry.list now
  (records.filter filter.accepts, { s with registry := registry })

/-- Moves a held clock. -/
def moveClock? (s : State) (by_ : Duration) : Option State :=
  (s.clock.move? by_).map fun clock => { s with clock := clock }

end State

/-- The simulation, with the outcome of each job given by its number. -/
def orchestrator (outcome : Nat → Outcome) : Backend State where
  simulated := true
  serve
    | .startJob request, now, s =>
      let (record, s') := s.start request.processKey outcome (s.clock.read now)
      ⟨.ok record, s', 0⟩
    | .getJob jobId, now, s =>
      let (answer, s') := s.get jobId (s.clock.read now)
      ⟨answer, s', 0⟩
    | .listJobs filter, now, s =>
      let (records, s') := s.list filter (s.clock.read now)
      ⟨.ok records, s', 0⟩
    | .setAsset _, _, s => ⟨.ok (), s, 0⟩
    | .getAsset name, _, s => ⟨.ok (assetNamed name), s, 0⟩
    | .health, _, s => ⟨.ok (), s, 0⟩

end RobotDesk.Simulation
