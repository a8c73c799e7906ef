import RobotDesk.Orchestrator
import RobotDesk.Settings
import RobotDesk.Simulation.Orchestrator

/-!
A workplace: the settings of a desk, and the surroundings in which they take effect.  Work is
carried out with the simulation or with the real orchestrator, as the settings say.
-/
namespace RobotDesk

open Time

structure Workplace (ν : Type) where
  settings : Settings
  /-- When work begins. -/
  opened : Timestamp
  /-- What chance brings for each simulated job. -/
  draws : Nat → Simulation.Draw
  network : Wire.Network ν

namespace Workplace

variable {ν α : Type}

/-- The simulation that the settings describe. -/
def simulation (p : Workplace ν) : Backend Simulation.State :=
  Simulation.orchestrator fun number => .rolled p.settings.failureRate (p.draws number)

/-- The real orchestrator that the settings describe. -/
def orchestrator (p : Workplace ν) : Backend ν :=
  Orchestrator.orchestrator p.network
    (Orchestrator.access p.settings.baseUrl p.settings.tenant p.settings.apiKey)

/-- The simulation before the first call. -/
def freshSimulation (p : Workplace ν) : Simulation.State :=
  Simulation.fresh p.settings.capacity p.settings.ttlSecs (.running p.opened)

/-- Carries work out; gives its result, the nanoseconds it took, and the state of the network. -/
def run (p : Workplace ν) (line : ν)
    (work : {σ : Type} → Backend σ → StateM (World σ) α) : α × Nat × ν :=
  if p.settings.simulated then
    let (result, w) := work p.simulation { state := p.freshSimulation, opened := p.opened }
    (result, w.now, line)
  else
    let (result, w) := work p.orchestrator { state := line, opened := p.opened }
    (result, w.now, w.state)

end Workplace
end RobotDesk
