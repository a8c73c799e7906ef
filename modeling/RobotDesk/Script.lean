import RobotDesk.Backend

/-!
A scripted orchestrator: the answers to each kind of call are written down beforehand and given one
after the other, the last of them again and again.
-/
namespace RobotDesk

/-- The answers that are still to be given to one kind of call. -/
abbrev Cue (α : Type) := List (Except Failure α)

namespace Cue

/-- What is answered when nothing was written down. -/
def silent : Failure := .unreachable "no scripted answer"

/-- The next answer, and the answers after it. -/
def next {α : Type} : Cue α → Except Failure α × Cue α
  | [] => (.error silent, [])
  | [answer] => (answer, [answer])
  | answer :: rest => (answer, rest)

end Cue

structure Script where
  start : Cue JobRecord := []
  get : Cue JobRecord := []
  list : Cue (List JobRecord) := []
  setAsset : Cue Unit := [.ok ()]
  getAsset : Cue AssetValue := []
  health : Cue Unit := [.ok ()]

/-- An orchestrator that follows a script, each answer taking some nanoseconds. -/
def Script.orchestrator (simulated : Bool) (latency : Nat) : Backend Script where
  simulated := simulated
  serve
    | .startJob _, _, s => let (a, c) := s.start.next; ⟨a, { s with start := c }, latency⟩
    | .getJob _, _, s => let (a, c) := s.get.next; ⟨a, { s with get := c }, latency⟩
    | .listJobs _, _, s => let (a, c) := s.list.next; ⟨a, { s with list := c }, latency⟩
    | .setAsset _, _, s => let (a, c) := s.setAsset.next; ⟨a, { s with setAsset := c }, latency⟩
    | .getAsset _, _, s => let (a, c) := s.getAsset.next; ⟨a, { s with getAsset := c }, latency⟩
    | .health, _, s => let (a, c) := s.health.next; ⟨a, { s with health := c }, latency⟩

end RobotDesk
