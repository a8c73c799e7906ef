import RobotDesk.Proofs.MemberMap
import RobotDesk.Proofs.OwnJob

/-!
The arguments with which the job for a test case is started.

Two markers say that this is a test and which case it is; the input of the case is put over them.
So each key of the input has its own value in the arguments, and a marker is there as it should be
unless the input has another value under its key.
-/
namespace RobotDesk

/-- The request that a call starts a job with. -/
def Call.start? : Call → Option JobRequest
  | .startJob request => some request
  | _ => none

/-- The requests that calls start jobs with, in their order. -/
def started (visits : List Visit) : List JobRequest := visits.filterMap (·.call.start?)

@[simp] theorem started_append (xs ys : List Visit) :
    started (xs ++ ys) = started xs ++ started ys := List.filterMap_append

theorem Polling.Lookups.started_eq_nil {visits : List Visit} (h : Lookups visits) :
    started visits = [] := by
  obtain ⟨ids, hids⟩ := h
  have hmap : started visits = (visits.map Visit.call).filterMap Call.start? := by
    rw [List.filterMap_map]
    rfl
  rw [hmap, hids, List.filterMap_map]
  simp [Call.start?]

namespace Trial

variable {σ : Type}

/-- The value that a marker should have. -/
def marker? (c : TestCase) (key : String) : Option Json :=
  if key = "testMode" then some (.bool true)
  else if key = "testCaseId" then some (.string c.caseId)
  else none

/-- Arguments that have the markers of a case and apart from them just what its input has. -/
structure Marked (c : TestCase) (arguments : Members) : Prop where
  mode : arguments.get? "testMode" = some (.bool true)
  caseId : arguments.get? "testCaseId" = some (.string c.caseId)
  others : ∀ key, key ≠ "testMode" → key ≠ "testCaseId" →
    arguments.get? key = c.inputData.get? key

theorem get?_arguments (c : TestCase) (key : String) :
    (arguments c).get? key = (c.inputData.get? key).or (marker? c key) := by
  rw [arguments, Members.get?_overlay]
  congr 1
  change Entries.get? key [("testCaseId", .string c.caseId), ("testMode", .bool true)] = _
  rw [marker?]
  by_cases hmode : key = "testMode"
  · rw [hmode]
    rfl
  · simp [Entries.get?, hmode]

/-- A marker is hidden exactly by another value under its key. -/
theorem get?_arguments_eq_some_iff {c : TestCase} {key : String} {v : Json}
    (hmarker : marker? c key = some v) :
    (arguments c).get? key = some v ↔ ∀ u, c.inputData.get? key = some u → u = v := by
  rw [get?_arguments, hmarker]
  cases c.inputData.get? key with
  | none => simp
  | some u => simp

theorem marked_arguments_iff (c : TestCase) :
    Marked c (arguments c) ↔ ∀ key v, marker? c key = some v →
      ∀ u, c.inputData.get? key = some u → u = v := by
  constructor
  · intro hmarked key v hmarker
    rw [← get?_arguments_eq_some_iff hmarker]
    unfold marker? at hmarker
    split at hmarker
    · rename_i hkey
      rw [hkey, ← hmarker]
      exact hmarked.mode
    · split at hmarker
      · rename_i hkey
        rw [hkey, ← hmarker]
        exact hmarked.caseId
      · cases hmarker
  · intro hkept
    refine ⟨?_, ?_, fun key hmode hid => ?_⟩
    · exact (get?_arguments_eq_some_iff rfl).mpr (hkept _ _ rfl)
    · exact (get?_arguments_eq_some_iff rfl).mpr (hkept _ _ rfl)
    · rw [get?_arguments, marker?, if_neg hmode, if_neg hid, Option.or_none]

/-- A case starts one job, with its own request, unless its deadline cannot be told, its input
cannot be staged or the process key is blank. -/
theorem runCase_started (b : Backend σ) (s : Settings) (botId processKey : String) (c : TestCase)
    (w : World σ) :
    ∃ visits, (runCase b s botId processKey c w).2.calls = w.calls ++ visits ∧
      (started visits = [request processKey c] ∨ started visits = [] ∧
        (w.last < w.now + s.deadline ∨
          (b.serve (.setAsset (stagedInput botId c)) w.now w.state).answer ≠ .ok () ∨
          Text.isBlankText processKey = true)) := by
  have hfollowed := follow_followed b s botId processKey c w
  generalize hrun : follow b s botId processKey c w = result at hfollowed
  rw [runCase_eq hrun]
  cases hfollowed with
  | undated untold => exact ⟨[], (List.append_nil _).symm, .inr ⟨rfl, .inl untold⟩⟩
  | unstaged told failure =>
    rcases Desk.operate_error failure with ⟨reason, hreason, -, -⟩ | ⟨-, hanswer⟩
    · rw [problem?_stagedInput] at hreason
      cases hreason
    · have hfailed : (b.serve (.setAsset (stagedInput botId c)) w.now w.state).answer ≠ .ok () := by
        rw [hanswer]
        simp
      rcases Desk.visit_of_operate_error failure with rfl | hcalls
      · exact ⟨[], (List.append_nil _).symm, .inr ⟨rfl, .inr (.inl hfailed)⟩⟩
      · exact ⟨_, hcalls, .inr ⟨rfl, .inr (.inl hfailed)⟩⟩
  | @unstarted f v w' told staged failure =>
    have hstaged := (Desk.visit_of_operate_ok staged).1
    cases hproblem : Desk.problem? (.startJob (request processKey c)) with
    | some reason =>
      rw [Desk.operate_of_problem hproblem] at failure
      cases failure
      exact ⟨_, hstaged, .inr ⟨rfl, .inr (.inr (Desk.problem?_startJob hproblem).1)⟩⟩
    | none =>
      rw [Desk.operate_of_no_problem hproblem] at failure
      have hcalls := Session.calls_ask b (.startJob (request processKey c)) v
      rw [failure, hstaged, List.append_assoc] at hcalls
      exact ⟨_, hcalls, .inl rfl⟩
  | @watched answer job v u _ told staged hstart watch =>
    obtain ⟨visits, hcalls, hlookups⟩ := calls_of_watched staged hstart watch
    refine ⟨_, hcalls, .inl ?_⟩
    rw [started_append, hlookups.started_eq_nil]
    rfl

/-- A case, for any orchestrator.  If its deadline can be told, then once the input is staged one
job is started, unless the process key is blank.  In its arguments each key of the input has its own
value, and a marker shows where the input has no value.  So the arguments have the markers of the
case, and apart from them just what the input has, exactly if the input has no other value under the
key of a marker. -/
theorem job_started_with_markers_iff (b : Backend σ) (s : Settings) (botId processKey : String)
    (c : TestCase) (w : World σ) :
    ∃ visits, (runCase b s botId processKey c w).2.calls = w.calls ++ visits ∧
      (w.now + s.deadline ≤ w.last →
        (b.serve (.setAsset (stagedInput botId c)) w.now w.state).answer = .ok () →
        Text.isBlankText processKey = false → started visits = [request processKey c]) ∧
      ∀ r ∈ started visits, r.processKey = processKey ∧ r.robotName = none ∧
        (∀ key, r.inputArguments.get? key = (c.inputData.get? key).or (marker? c key)) ∧
        (Marked c r.inputArguments ↔ ∀ key v, marker? c key = some v →
          ∀ u, c.inputData.get? key = some u → u = v) := by
  obtain ⟨visits, hcalls, hstarted⟩ := runCase_started b s botId processKey c w
  refine ⟨visits, hcalls, fun htold hstaged hkey => ?_, fun r hr => ?_⟩
  · rcases hstarted with hstarted | ⟨-, huntold | hfailed | hblank⟩
    · exact hstarted
    · omega
    · exact absurd hstaged hfailed
    · rw [hkey] at hblank
      cases hblank
  · obtain rfl : r = request processKey c := by
      rcases hstarted with hstarted | ⟨hnone, -⟩
      · simpa [hstarted] using hr
      · simp [hnone] at hr
    exact ⟨rfl, rfl, get?_arguments c, marked_arguments_iff c⟩

/-- An input that repeats a marker with the same value hides nothing. -/
theorem job_started_with_markers_of_invoice :
    let c : TestCase :=
      { caseId := "TC-1"
        inputData := .ofPairs [("invoiceNo", .string "INV-1"), ("testMode", .bool true)] }
    let w : World Script := { state := {}, opened := ⟨20000, 0, 0⟩ }
    ∃ r, started (runCase (Script.orchestrator true 0) {} "BOT-7" "Invoice" c w).2.calls = [r] ∧
      Marked c r.inputArguments := by
  intro c w
  obtain ⟨visits, hcalls, hstarted, hall⟩ :=
    job_started_with_markers_iff (Script.orchestrator true 0) {} "BOT-7" "Invoice" c w
  have hone := hstarted (by decide) rfl (by decide)
  refine ⟨_, by rw [hcalls]; exact hone, ?_⟩
  rw [(hall _ (by rw [hone]; exact List.mem_singleton_self _)).2.2.2]
  intro key v hmarker u hu
  unfold marker? at hmarker
  split at hmarker
  · rename_i hkey
    subst hkey
    cases hmarker
    cases hu
    rfl
  · split at hmarker
    · rename_i hkey
      subst hkey
      cases hu
    · cases hmarker

/-- An input with `testMode` of its own hides that the job is a test. -/
theorem marker_hidden_by_input :
    let c : TestCase := { caseId := "T", inputData := .ofPairs [("testMode", .bool false)] }
    let w : World Script := { state := {}, opened := ⟨20000, 0, 0⟩ }
    ∃ r, started (runCase (Script.orchestrator true 0) {} "B" "P" c w).2.calls = [r] ∧
      r.inputArguments.get? "testMode" = some (.bool false) ∧
      ¬ Marked c r.inputArguments := by
  refine ⟨_, rfl, rfl, fun h => ?_⟩
  cases h.mode

end Trial
end RobotDesk
