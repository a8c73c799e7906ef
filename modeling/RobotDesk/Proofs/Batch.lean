import RobotDesk.Proofs.Deadline
import RobotDesk.Trial

/-!
Batches of test cases.

The calls of a batch are a block for each case, in the order of the cases: the input is staged, the
job is started, and from then on the job is looked up.  A block begins in the world in which the
result of the case before it was made.  The first operation that fails ends the batch with its
failure, in the world that it leaves.  A case is broken off where the clock cannot tell its deadline
or the end of an interval, or where polls without a wait go on beyond all patience, and the batch
with it.  A batch can therefore be cut in two anywhere, and the two parts run one after the other.
-/
namespace RobotDesk

/-- Two tallies together. -/
def TestSummary.plus (s s' : TestSummary) : TestSummary where
  total := s.total + s'.total
  pass := s.pass + s'.pass
  fail := s.fail + s'.fail
  error := s.error + s'.error

theorem TestSummary.plus_record (s s' : TestSummary) (o : TestOutcome) :
    s.plus (s'.record o) = (s.plus s').record o := by
  cases o <;> rfl

@[simp] theorem TestSummary.plus_empty (s : TestSummary) : s.plus {} = s := rfl

/-- The numbers of results with each outcome. -/
def TestSummary.ofResults (results : List TestResult) : TestSummary where
  total := results.length
  pass := results.countP (·.status = .pass)
  fail := results.countP (·.status = .fail)
  error := results.countP (·.status = .error)

theorem TestSummary.ofResults_cons (r : TestResult) (results : List TestResult) :
    ofResults (r :: results) = (TestSummary.record {} r.status).plus (ofResults results) := by
  cases h : r.status <;> simp [ofResults, record, plus, h, Nat.add_comm]

/-- Each result counts once. -/
theorem TestSummary.parts_ofResults (results : List TestResult) :
    (ofResults results).pass + (ofResults results).fail + (ofResults results).error =
      results.length := by
  induction results with
  | nil => rfl
  | cons r results ih =>
    have hone := parts_record {} r.status
    rw [ofResults_cons, List.length_cons, ← ih]
    simp only [plus] at hone ⊢
    omega

namespace Trial

variable {σ : Type}

/-- Two reports as one. -/
def Report.append (r r' : Report) : Report :=
  ⟨r.summary.plus r'.summary, r.results ++ r'.results⟩

@[simp] theorem Report.append_empty (r : Report) : r.append {} = r := by
  simp [append]

theorem Report.append_add (r r' : Report) (result : TestResult) :
    r.append (r'.add result) = (r.append r').add result := by
  simp [append, add, TestSummary.plus_record]

/-- A report is carried along unchanged while cases are run. -/
theorem foldlM_append (run : TestCase → Work σ TestResult) (cases : List TestCase)
    (r r' : Report) :
    cases.foldlM (fun report c => return report.add (← run c)) (r.append r') =
      r.append <$> cases.foldlM (fun report c => return report.add (← run c)) r' := by
  induction cases generalizing r' with
  | nil => simp
  | cons c rest ih =>
    simp only [List.foldlM_cons, bind_assoc, pure_bind, map_bind, ← Report.append_add, ih]

/-- To run one list of cases and then another is to run both as one list. -/
theorem runBatch_append (b : Backend σ) (s : Settings) (botId processKey : String)
    (xs ys : List TestCase) :
    runBatch b s botId processKey (xs ++ ys) = do
      let first ← runBatch b s botId processKey xs
      let second ← runBatch b s botId processKey ys
      return first.append second := by
  simp only [runBatch, List.foldlM_append]
  congr 1
  funext first
  have h := foldlM_append (runCase b s botId processKey) ys first {}
  rw [Report.append_empty] at h
  rw [h, map_eq_pure_bind]

theorem runBatch_cons (b : Backend σ) (s : Settings) (botId processKey : String)
    (c : TestCase) (rest : List TestCase) :
    runBatch b s botId processKey (c :: rest) = do
      let result ← runCase b s botId processKey c
      let report ← runBatch b s botId processKey rest
      return (Report.add {} result).append report := by
  rw [← List.singleton_append, runBatch_append]
  simp [runBatch]

/-- The input of a case has a name and a value, whatever the case is. -/
theorem problem?_stagedInput (botId : String) (c : TestCase) :
    Desk.problem? (.setAsset (stagedInput botId c)) = none := by
  simp [Desk.problem?, stagedInput, Members.toJson, Json.render]

/-- The calls of a case: its input is staged, its job started, and then jobs are looked up. -/
def CaseCalls (botId processKey : String) (c : TestCase) (calls : List Call) : Prop :=
  ∃ ids : List String, calls =
    .setAsset ⟨"test_input_" ++ botId ++ "_" ++ c.caseId, .text, c.inputData.toJson.render⟩ ::
    .startJob (request processKey c) :: ids.map .getJob

/-- A case is run to its end: all its operations succeed, and its result is made once they are
done. -/
structure CaseRun (b : Backend σ) (botId processKey : String) (c : TestCase) (w : World σ)
    (block : List Visit) (r : TestResult) (w' : World σ) : Prop where
  performs : Performs b w block w'
  calls : CaseCalls botId processKey c (block.map Visit.call)
  times : ∀ visit ∈ block, w.now ≤ visit.time ∧ visit.time ≤ w'.now
  caseId : r.caseId = c.caseId
  expectedOutput : r.expectedOutput = c.expectedOutput
  timestamp : r.timestamp = w'.clock

/-- A case ends with an operation that fails, after those before it have succeeded. -/
structure CaseBreaks (b : Backend σ) (botId processKey : String) (c : TestCase) (w : World σ)
    (visits : List Visit) (call : Call) (f : Failure) (w' : World σ) : Prop where
  breaks : Breaks b w visits call f w'
  calls : ∃ rest, CaseCalls botId processKey c (visits.map Visit.call ++ call :: rest)

/-- Why a case is broken off in a world, after some calls. -/
inductive Unended (s : Settings) (visits : List Visit) (w : World σ) : Stop → Prop where
  | deadline (untold : w.last < w.now + s.deadline) : Unended s visits w .overflow
  | interval (untold : w.last < w.now + s.interval) : Unended s visits w .overflow
  | waitless (interval : s.interval = 0) (patience : s.patience < visits.length) :
      Unended s visits w .unsettled

theorem Unended.ne_failed {s : Settings} {visits : List Visit} {w : World σ} {stop : Stop}
    (h : Unended s visits w stop) (f : Failure) : stop ≠ .failed f := by
  rintro rfl
  cases h

/-- A case is broken off, after operations that have succeeded. -/
structure CaseStops (b : Backend σ) (s : Settings) (botId processKey : String) (c : TestCase)
    (w : World σ) (visits : List Visit) (stop : Stop) (w' : World σ) : Prop where
  performs : Performs b w visits w'
  calls : ∃ rest, CaseCalls botId processKey c (visits.map Visit.call ++ rest)
  reason : Unended s visits w' stop

/-- What carrying out a case can come to: its deadline cannot be told, or its input is not staged,
or its job is not started, or the job is watched until the deadline, which counts from the
beginning, and is lost or comes to an ending. -/
inductive Followed (b : Backend σ) (s : Settings) (botId processKey : String) (c : TestCase)
    (w : World σ) : Except Stop Course × World σ → Prop where
  | undated (untold : w.last < w.now + s.deadline) :
      Followed b s botId processKey c w (.error .overflow, w)
  | unstaged {f : Failure} {w' : World σ} (told : w.now + s.deadline ≤ w.last)
      (failure : Desk.operate b (.setAsset (stagedInput botId c)) w = (.error f, w')) :
      Followed b s botId processKey c w (.error (.failed f), w')
  | unstarted {f : Failure} {v w' : World σ} (told : w.now + s.deadline ≤ w.last)
      (staged : Desk.operate b (.setAsset (stagedInput botId c)) w = (.ok (), v))
      (failure : Desk.operate b (.startJob (request processKey c)) v = (.error f, w')) :
      Followed b s botId processKey c w (.error (.failed f), w')
  | watched {answer : Except Stop Ending} {job : JobRecord} {v u w' : World σ}
      (told : w.now + s.deadline ≤ w.last)
      (staged : Desk.operate b (.setAsset (stagedInput botId c)) w = (.ok (), v))
      (started : Desk.operate b (.startJob (request processKey c)) v = (.ok job, u))
      (watch : Polling.untilTerminal b s.interval s.patience (w.now + s.deadline) job u =
        (answer, w')) :
      Followed b s botId processKey c w (answer.map (Course.mk w.now job), w')

theorem follow_followed (b : Backend σ) (s : Settings) (botId processKey : String) (c : TestCase)
    (w : World σ) :
    Followed b s botId processKey c w (follow b s botId processKey c w) := by
  rw [follow, bind_of_ok (x := Work.now) (w := w) rfl]
  rcases Nat.lt_or_ge w.last (w.now + s.deadline) with untold | told
  · rw [bind_of_error (Work.later_of_lt untold)]
    exact .undated untold
  rw [bind_of_ok (Work.later_of_le told)]
  cases hstage : Desk.operate b (.setAsset (stagedInput botId c)) w with
  | mk answer v =>
  cases answer with
  | error f =>
    rw [bind_of_error (Work.lift_of_error (x := Desk.setAsset b (stagedInput botId c)) hstage)]
    exact .unstaged told hstage
  | ok staged =>
    rw [bind_of_ok (Work.lift_of_ok (x := Desk.setAsset b (stagedInput botId c)) hstage)]
    cases hstart : Desk.operate b (.startJob (request processKey c)) v with
    | mk answer u =>
    cases answer with
    | error f =>
      rw [bind_of_error (Work.lift_of_error (x := Desk.startJob b (request processKey c)) hstart)]
      exact .unstarted told hstage hstart
    | ok job =>
      rw [bind_of_ok (Work.lift_of_ok (x := Desk.startJob b (request processKey c)) hstart)]
      cases hpoll : Polling.untilTerminal b s.interval s.patience (w.now + s.deadline) job u with
      | mk answer w' =>
      have hfollowed := Followed.watched told hstage hstart hpoll
      cases answer with
      | error stop =>
        rw [bind_of_error hpoll]
        exact hfollowed
      | ok ending =>
        rw [bind_of_ok hpoll]
        exact hfollowed

/-- Once its job has been started, a case comes to what watching the job comes to. -/
theorem follow_concludes {b : Backend σ} {botId processKey : String} {c : TestCase}
    {job : JobRecord} {w v u : World σ} {s : Settings} (told : w.now + s.deadline ≤ w.last)
    (staged : Desk.operate b (.setAsset (stagedInput botId c)) w = (.ok (), v))
    (started : Desk.operate b (.startJob (request processKey c)) v = (.ok job, u)) :
    ∃ answer w', Polling.untilTerminal b s.interval s.patience (w.now + s.deadline) job u =
        (answer, w') ∧
      follow b s botId processKey c w = (answer.map (Course.mk w.now job), w') := by
  have h := follow_followed b s botId processKey c w
  generalize follow b s botId processKey c w = result at h
  cases h with
  | undated untold => omega
  | unstaged told failure => cases staged.symm.trans failure
  | unstarted told staged' failure =>
    cases staged.symm.trans staged'
    cases started.symm.trans failure
  | watched told staged' started' watch =>
    cases staged.symm.trans staged'
    cases started.symm.trans started'
    exact ⟨_, _, watch, rfl⟩

/-- The calls that stage the input of a case and start its job. -/
theorem performs_start {b : Backend σ} {botId processKey : String} {c : TestCase} {job : JobRecord}
    {w v u : World σ}
    (staged : Desk.operate b (.setAsset (stagedInput botId c)) w = (.ok (), v))
    (started : Desk.operate b (.startJob (request processKey c)) v = (.ok job, u)) :
    Performs b w [⟨w.now, .setAsset (stagedInput botId c)⟩,
      ⟨v.now, .startJob (request processKey c)⟩] u :=
  .call staged (.call started (.done u))

/-- Once its job has been started, a case only looks jobs up. -/
theorem calls_of_watched {b : Backend σ} {botId processKey : String} {c : TestCase}
    {job : JobRecord} {w v u w' : World σ} {interval patience deadline : Nat}
    {answer : Except Stop Ending}
    (staged : Desk.operate b (.setAsset (stagedInput botId c)) w = (.ok (), v))
    (started : Desk.operate b (.startJob (request processKey c)) v = (.ok job, u))
    (watch : Polling.untilTerminal b interval patience deadline job u = (answer, w')) :
    ∃ visits, w'.calls = w.calls ++ ([⟨w.now, .setAsset (stagedInput botId c)⟩,
        ⟨v.now, .startJob (request processKey c)⟩] ++ visits) ∧ Polling.Lookups visits := by
  obtain ⟨visits, hcalls, hlookups⟩ := (Polling.concludes_of_untilTerminal watch).calls_eq
  rw [(performs_start staged started).calls_eq, List.append_assoc] at hcalls
  exact ⟨visits, hcalls, hlookups⟩

/-- Why polling within a case is broken off. -/
theorem unended_of_stops {b : Backend σ} {s : Settings} {deadline : Nat} {job : JobRecord}
    {u w' : World σ} {stop : Stop} (hstop : ∀ f, stop ≠ .failed f)
    (watch : Polling.untilTerminal b s.interval s.patience deadline job u = (.error stop, w')) :
    ∃ visits, Performs b u visits w' ∧ Polling.Lookups visits ∧
      ∀ before : List Visit, before ≠ [] → Unended s (before ++ visits) w' stop := by
  cases Polling.concludes_of_untilTerminal watch with
  | failed => exact absurd rfl (hstop _)
  | overflow hwatch unfinished early untold =>
    obtain ⟨visits, hperforms, hlookups⟩ := hwatch.lookups
    exact ⟨visits, hperforms, hlookups, fun _ _ => .interval untold⟩
  | @unsettled answers _ hwatch unfinished early used =>
    obtain ⟨visits, hperforms, hcalls⟩ := hwatch.performs
    refine ⟨visits, hperforms, ⟨(job :: answers).dropLast.map (·.jobId), ?_⟩,
      fun before hbefore => ?_⟩
    · rw [hcalls, List.map_map]
      rfl
    · refine .waitless (Polling.interval_eq_zero watch) ?_
      have hlength := congrArg List.length hcalls
      have hpos := List.length_pos_iff.mpr hbefore
      simp at hlength ⊢
      omega

theorem follow_cases (b : Backend σ) (s : Settings) (botId processKey : String) (c : TestCase)
    (w : World σ) :
    (∃ course w' block, follow b s botId processKey c w = (.ok course, w') ∧
      Performs b w block w' ∧ CaseCalls botId processKey c (block.map Visit.call)) ∨
    (∃ f w' visits call, follow b s botId processKey c w = (.error (.failed f), w') ∧
      CaseBreaks b botId processKey c w visits call f w') ∨
    ∃ stop w' visits, follow b s botId processKey c w = (.error stop, w') ∧
      CaseStops b s botId processKey c w visits stop w' := by
  have h := follow_followed b s botId processKey c w
  generalize follow b s botId processKey c w = result at h
  cases h with
  | undated untold =>
    exact .inr (.inr ⟨_, _, [], rfl, .done w,
      ⟨[.setAsset (stagedInput botId c), .startJob (request processKey c)], [], rfl⟩,
      .deadline untold⟩)
  | unstaged told failure =>
    exact .inr (.inl ⟨_, _, [], _, rfl, ⟨.done w, failure⟩,
      [.startJob (request processKey c)], [], rfl⟩)
  | unstarted told staged failure =>
    exact .inr (.inl ⟨_, _, _, _, rfl, ⟨.call staged (.done _), failure⟩, [], [], rfl⟩)
  | @watched answer job v u w' told staged started watch =>
    have hstart := performs_start staged started
    have hconcludes := Polling.concludes_of_untilTerminal watch
    cases answer with
    | ok ending =>
      obtain ⟨visits, hperforms, ids, hids⟩ := hconcludes.performs
      refine .inl ⟨_, _, _, rfl, hstart.append hperforms, ids, ?_⟩
      rw [List.map_append, hids]
      rfl
    | error stop =>
      by_cases hfailed : ∃ f, stop = .failed f
      · obtain ⟨f, rfl⟩ := hfailed
        obtain ⟨visits, jobId, hbreaks, ids, hids⟩ := hconcludes.breaks
        refine .inr (.inl ⟨f, _, _, _, rfl, hbreaks.after hstart, [], ids ++ [jobId], ?_⟩)
        rw [List.map_append, hids, List.map_append]
        rfl
      · obtain ⟨visits, hperforms, ⟨ids, hids⟩, hreason⟩ :=
          unended_of_stops (fun f hf => hfailed ⟨f, hf⟩) watch
        refine .inr (.inr ⟨stop, _, _, rfl, hstart.append hperforms, ⟨[], ids, ?_⟩,
          hreason _ (by simp)⟩)
        rw [List.map_append, hids, List.append_nil]
        rfl

/-- The result of a case is made from how its job went. -/
theorem runCase_eq {b : Backend σ} {s : Settings} {botId processKey : String} {c : TestCase}
    {w w' : World σ} {answer : Except Stop Course}
    (h : follow b s botId processKey c w = (answer, w')) :
    runCase b s botId processKey c w =
      (answer.map fun course => course.result s botId c w'.now w'.clock, w') := by
  cases answer with
  | error stop => exact bind_of_error h _
  | ok course => exact bind_of_ok h _

/-- A case whose job is not started fails as the start does. -/
theorem runCase_of_unstarted {b : Backend σ} {s : Settings} {botId processKey : String}
    {c : TestCase} {w v w' : World σ} {f : Failure} (told : w.now + s.deadline ≤ w.last)
    (staged : Desk.operate b (.setAsset (stagedInput botId c)) w = (.ok (), v))
    (failure : Desk.operate b (.startJob (request processKey c)) v = (.error f, w')) :
    runCase b s botId processKey c w = (.error (.failed f), w') := by
  have h := follow_followed b s botId processKey c w
  generalize hrun : follow b s botId processKey c w = result at h
  cases h with
  | undated untold => omega
  | unstaged told failure' => cases staged.symm.trans failure'
  | unstarted told staged' failure' =>
    cases staged.symm.trans staged'
    cases failure.symm.trans failure'
    exact runCase_eq hrun
  | watched told staged' started watch =>
    cases staged.symm.trans staged'
    cases failure.symm.trans started

/-- A case whose deadline cannot be told is broken off before its first call. -/
theorem runCase_of_lt {b : Backend σ} {s : Settings} {botId processKey : String} {c : TestCase}
    {w : World σ} (untold : w.last < w.now + s.deadline) :
    runCase b s botId processKey c w = (.error .overflow, w) := by
  have h := follow_followed b s botId processKey c w
  generalize hrun : follow b s botId processKey c w = result at h
  cases h with
  | undated => exact runCase_eq hrun
  | unstaged told | unstarted told | watched told => omega

theorem runCase_cases (b : Backend σ) (s : Settings) (botId processKey : String) (c : TestCase)
    (w : World σ) :
    (∃ r w' block, runCase b s botId processKey c w = (.ok r, w') ∧
      CaseRun b botId processKey c w block r w') ∨
    (∃ f w' visits call, runCase b s botId processKey c w = (.error (.failed f), w') ∧
      CaseBreaks b botId processKey c w visits call f w') ∨
    ∃ stop w' visits, runCase b s botId processKey c w = (.error stop, w') ∧
      CaseStops b s botId processKey c w visits stop w' := by
  rcases follow_cases b s botId processKey c w with
    ⟨course, w', block, hfollow, hperforms, hcalls⟩ | ⟨f, w', visits, call, hfollow, hbreaks⟩ |
    ⟨stop, w', visits, hfollow, hstops⟩
  · refine .inl ⟨_, w', block, bind_of_ok hfollow _, ?_⟩
    exact ⟨hperforms, hcalls, hperforms.time_mem, rfl, rfl, rfl⟩
  · exact .inr (.inl ⟨f, w', visits, call, bind_of_error hfollow _, hbreaks⟩)
  · exact .inr (.inr ⟨stop, w', visits, bind_of_error hfollow _, hstops⟩)

/-- Cases are run to their ends one after the other, each from the world in which the result of the
one before it was made. -/
inductive BatchRun (b : Backend σ) (botId processKey : String) :
    World σ → List TestCase → List (List Visit) → List TestResult → World σ → Prop where
  | nil (w : World σ) : BatchRun b botId processKey w [] [] [] w
  | cons {w v w' : World σ} {c : TestCase} {cases : List TestCase} {block : List Visit}
      {blocks : List (List Visit)} {r : TestResult} {results : List TestResult}
      (first : CaseRun b botId processKey c w block r v)
      (rest : BatchRun b botId processKey v cases blocks results w') :
      BatchRun b botId processKey w (c :: cases) (block :: blocks) (r :: results) w'

namespace BatchRun

variable {b : Backend σ} {botId processKey : String} {w w' : World σ} {cases : List TestCase}
  {blocks : List (List Visit)} {results : List TestResult}

theorem performs (h : BatchRun b botId processKey w cases blocks results w') :
    Performs b w blocks.flatten w' := by
  induction h with
  | nil w => exact .done w
  | cons first rest ih => exact first.performs.append ih

theorem calls_eq (h : BatchRun b botId processKey w cases blocks results w') :
    w'.calls = w.calls ++ blocks.flatten :=
  h.performs.calls_eq

theorem results_eq (h : BatchRun b botId processKey w cases blocks results w') :
    results.map (fun r => (r.caseId, r.expectedOutput)) =
      cases.map fun c => (c.caseId, c.expectedOutput) := by
  induction h with
  | nil w => rfl
  | cons first rest ih =>
    rw [List.map_cons, List.map_cons, ih, first.caseId, first.expectedOutput]

theorem length_results (h : BatchRun b botId processKey w cases blocks results w') :
    results.length = cases.length := by
  have heq := congrArg List.length h.results_eq
  rwa [List.length_map, List.length_map] at heq

end BatchRun

theorem runBatch_cases (b : Backend σ) (s : Settings) (botId processKey : String)
    (cases : List TestCase) (w : World σ) :
    (∃ report w' blocks, runBatch b s botId processKey cases w = (.ok report, w') ∧
      BatchRun b botId processKey w cases blocks report.results w' ∧
      report.summary = .ofResults report.results) ∨
    (∃ f w' done c rest blocks results v visits call,
      runBatch b s botId processKey cases w = (.error (.failed f), w') ∧
      cases = done ++ c :: rest ∧ BatchRun b botId processKey w done blocks results v ∧
      CaseBreaks b botId processKey c v visits call f w') ∨
    ∃ stop w' done c rest blocks results v visits,
      runBatch b s botId processKey cases w = (.error stop, w') ∧ cases = done ++ c :: rest ∧
      BatchRun b botId processKey w done blocks results v ∧
      CaseStops b s botId processKey c v visits stop w' := by
  induction cases generalizing w with
  | nil => exact .inl ⟨{}, w, [], rfl, .nil w, rfl⟩
  | cons c rest ih =>
    rw [runBatch_cons]
    rcases runCase_cases b s botId processKey c w with
      ⟨r, v, block, hcase, hrun⟩ | ⟨f, w', visits, call, hcase, hbreaks⟩ |
      ⟨stop, w', visits, hcase, hstops⟩
    · rw [bind_of_ok hcase]
      rcases ih v with ⟨report, w', blocks, hbatch, hrest, hsummary⟩ |
        ⟨f, w', done, c', rest', blocks, results, u, visits, call, hbatch, rfl, hdone, hbreaks⟩ |
        ⟨stop, w', done, c', rest', blocks, results, u, visits, hbatch, rfl, hdone, hstops⟩
      · refine .inl ⟨_, w', block :: blocks, bind_of_ok hbatch _, .cons hrun hrest, ?_⟩
        change (TestSummary.record {} r.status).plus report.summary =
          .ofResults (r :: report.results)
        rw [TestSummary.ofResults_cons, hsummary]
      · exact .inr (.inl ⟨f, w', c :: done, c', rest', block :: blocks, r :: results, u, visits,
          call, bind_of_error hbatch _, rfl, .cons hrun hdone, hbreaks⟩)
      · exact .inr (.inr ⟨stop, w', c :: done, c', rest', block :: blocks, r :: results, u, visits,
          bind_of_error hbatch _, rfl, .cons hrun hdone, hstops⟩)
    · exact .inr (.inl ⟨f, w', [], c, rest, [], [], w, visits, call, bind_of_error hcase _, rfl,
        .nil w, hbreaks⟩)
    · exact .inr (.inr ⟨stop, w', [], c, rest, [], [], w, visits, bind_of_error hcase _, rfl,
        .nil w, hstops⟩)

theorem summary_of_runBatch_ok {b : Backend σ} {s : Settings} {botId processKey : String}
    {cases : List TestCase} {w w' : World σ} {report : Report}
    (h : runBatch b s botId processKey cases w = (.ok report, w')) :
    report.summary = .ofResults report.results := by
  rcases runBatch_cases b s botId processKey cases w with
    ⟨report', w'', blocks, hrun, -, hsummary⟩ |
    ⟨f, w'', done, c, rest, blocks, results, v, visits, call, hrun, -⟩ |
    ⟨stop, w'', done, c, rest, blocks, results, v, visits, hrun, -⟩
  · cases h.symm.trans hrun
    exact hsummary
  · cases h.symm.trans hrun
  · cases h.symm.trans hrun

/-- A batch, for any orchestrator.  Either every operation succeeds: the calls are one block for
each case, in the order of the cases, none made before the result of the case before it; and there
is one result for each case, in that order, counted under its outcome.  Or an operation fails: the
cases before it were run to their ends, no call follows it, and the batch fails as it did.  Or a
case is broken off, after those before it were run to their ends, and no call follows; the clock
then cannot tell its deadline or the end of an interval, or there is no wait between polls.  And to
run two lists of cases one after the other is to run them as one. -/
theorem batch_runs_case_by_case (b : Backend σ) (s : Settings) (botId processKey : String)
    (cases : List TestCase) (w : World σ) :
    ((∃ report w' blocks, runBatch b s botId processKey cases w = (.ok report, w') ∧
        BatchRun b botId processKey w cases blocks report.results w' ∧
        w'.calls = w.calls ++ blocks.flatten ∧
        report.results.map (fun r => (r.caseId, r.expectedOutput)) =
          cases.map (fun c => (c.caseId, c.expectedOutput)) ∧
        report.summary.total = cases.length ∧
        report.summary.pass = report.results.countP (·.status = .pass) ∧
        report.summary.fail = report.results.countP (·.status = .fail) ∧
        report.summary.error = report.results.countP (·.status = .error) ∧
        report.summary.pass + report.summary.fail + report.summary.error =
          report.summary.total) ∨
      (∃ f w' done c rest blocks results v visits call last,
        runBatch b s botId processKey cases w = (.error (.failed f), w') ∧
        cases = done ++ c :: rest ∧ BatchRun b botId processKey w done blocks results v ∧
        CaseBreaks b botId processKey c v visits call f w' ∧
        w'.calls = w.calls ++ (blocks ++ [visits ++ last]).flatten ∧
        (last = [] ∨ last.map Visit.call = [call])) ∨
      ∃ stop w' done c rest blocks results v visits,
        runBatch b s botId processKey cases w = (.error stop, w') ∧ cases = done ++ c :: rest ∧
        BatchRun b botId processKey w done blocks results v ∧
        CaseStops b s botId processKey c v visits stop w' ∧
        w'.calls = w.calls ++ (blocks ++ [visits]).flatten) ∧
    ∀ xs ys, runBatch b s botId processKey (xs ++ ys) = do
      let first ← runBatch b s botId processKey xs
      let second ← runBatch b s botId processKey ys
      return first.append second := by
  refine ⟨?_, runBatch_append b s botId processKey⟩
  rcases runBatch_cases b s botId processKey cases w with
    ⟨report, w', blocks, hbatch, hrun, hsummary⟩ |
    ⟨f, w', done, c, rest, blocks, results, v, visits, call, hbatch, hcases, hdone, hbreaks⟩ |
    ⟨stop, w', done, c, rest, blocks, results, v, visits, hbatch, hcases, hdone, hstops⟩
  · have htotal : report.summary.total = report.results.length := by
      rw [hsummary]
      rfl
    have hparts := TestSummary.parts_ofResults report.results
    rw [← hsummary, ← htotal] at hparts
    refine .inl ⟨report, w', blocks, hbatch, hrun, hrun.calls_eq, hrun.results_eq,
      htotal.trans hrun.length_results, ?_, ?_, ?_, hparts⟩
    all_goals
      rw [hsummary]
      rfl
  · obtain ⟨last, hcalls, hlast⟩ := hbreaks.breaks.calls_eq
    refine .inr (.inl ⟨f, w', done, c, rest, blocks, results, v, visits, call, last, hbatch, hcases,
      hdone, hbreaks, ?_, hlast⟩)
    rw [hcalls, hdone.calls_eq]
    simp
  · refine .inr (.inr ⟨stop, w', done, c, rest, blocks, results, v, visits, hbatch, hcases, hdone,
      hstops, ?_⟩)
    rw [hstops.performs.calls_eq, hdone.calls_eq]
    simp

end Trial
end RobotDesk
