import RobotDesk.Endpoint.Router
import RobotDesk.Proofs.InvalidRequest

/-!
How the service answers a request for a batch of test cases.

When nothing is missing from the request, the answer depends on the batch alone.  A batch that is
run to its end is reported with the status 200.  One that fails is answered like any other failure:
with 500 if the orchestrator was not reached, refused or was not understood, but with 404 if
something was not found and with 400 if a request was invalid.  The last two happen when the
orchestrator answers a call of the batch so, or gives a job a blank id.  A batch that is broken off
has no answer.
-/
namespace RobotDesk

/-- A failure of the orchestrator or on the way to it, rather than of what was asked. -/
def Failure.isUpstream : Failure → Bool
  | .unreachable _ | .refused _ _ | .undecodable _ => true
  | .invalidRequest _ | .notFound _ => false

namespace Endpoint

open Envelope

namespace Response

theorem statusOf_eq_500_iff (f : Failure) : statusOf f = 500 ↔ f.isUpstream = true := by
  cases f <;> simp [statusOf, Failure.isUpstream]

theorem statusOf_eq_404_iff (f : Failure) : statusOf f = 404 ↔ ∃ what, f = .notFound what := by
  cases f <;> simp [statusOf]

theorem statusOf_eq_400_iff (f : Failure) :
    statusOf f = 400 ↔ ∃ reason, f = .invalidRequest reason := by
  cases f <;> simp [statusOf]

end Response

/-- A request that asks for a batch of test cases, with nothing missing from it. -/
structure Request.AsksBatch (r : Request) (botId processKey : String) (cases : List TestCase) :
    Prop where
  method : r.method = "POST"
  path : r.target.path = "/api/test/run"
  plan : r.readBody TestPlan.codec = .ok ⟨some botId, some processKey, some cases⟩
  botId : Text.isBlankText botId = false
  processKey : Text.isBlankText processKey = false
  cases : cases ≠ []

/-- A request for one case. -/
def oneCase : Request where
  method := "POST"
  target := .origin ⟨"/api/test/run", none⟩
  headers := [("content-type", "application/json")]
  body := Text.utf8
    "\x7b\"botId\":\"B\",\"processKey\":\"P\",\"cases\":[\x7b\"caseId\":\"T\"\x7d]\x7d"

theorem readBody_oneCase : oneCase.readBody TestPlan.codec =
    .ok ⟨some "B", some "P", some [{ caseId := "T" }]⟩ := by
  have hjson : oneCase.bringsJson = true := by decide +kernel
  have hsize : exceeds bodyLimit oneCase.body = false := by decide +kernel
  have htext : Text.ofBytes oneCase.body = Text.glyphs
      "\x7b\"botId\":\"B\",\"processKey\":\"P\",\"cases\":[\x7b\"caseId\":\"T\"\x7d]\x7d" := by
    decide +kernel
  have hplan : TestPlan.codec.decode (Text.ofBytes oneCase.body) =
      .ok ⟨some "B", some "P", some [{ caseId := "T" }]⟩ := by
    rw [htext]
    with_unfolding_all rfl
  simp [Request.readBody, hjson, hsize, hplan]

theorem oneCase_asksBatch : oneCase.AsksBatch "B" "P" [{ caseId := "T" }] where
  method := rfl
  path := rfl
  plan := readBody_oneCase
  botId := by decide
  processKey := by decide
  cases := by decide

variable {σ : Type} {b : Backend σ} {s : Trial.Settings} {r : Request} {botId processKey : String}
  {cases : List TestCase} {w w' : World σ}

theorem present_of_not_blank {text : String} (h : Text.isBlankText text = false) :
    present (some text) = some text := by
  simp [present, h]

theorem batchOf_eq (h : r.AsksBatch botId processKey cases) (w : World σ) :
    (batchOf r : Session σ _) w = (.ok (botId, processKey, cases), w) := by
  unfold batchOf
  rw [bind_of_ok (x := need (r.readBody TestPlan.codec)) (w := w) (by rw [h.plan]; rfl),
    bind_of_ok (x := required (present (some botId)) _) (w := w)
      (by rw [present_of_not_blank h.botId]; rfl),
    bind_of_ok (x := required (present (some processKey)) _) (w := w)
      (by rw [present_of_not_blank h.processKey]; rfl),
    bind_of_ok (x := required (some cases) _) (w := w) rfl, if_neg (by simpa using h.cases)]
  rfl

/-- Once the request has been read, only the batch is left. -/
theorem runTests_eq (h : r.AsksBatch botId processKey cases) (b : Backend σ) (s : Trial.Settings) :
    runTests b s r = do
      let report ← Trial.runBatch b s botId processKey cases
      return TestReport.toJson ⟨true, b.simulated, botId, report.summary, report.results⟩ :=
  funext fun w => bind_of_ok (Work.lift_of_ok (batchOf_eq h w)) _

/-- The answer is what running the tests comes to, and may be read from any origin. -/
theorem serve_eq (h : r.AsksBatch botId processKey cases) (b : Backend σ) (s : Trial.Settings) :
    serve b s r = do
      let response ← respond (runTests b s r)
      return { response with
        headers := response.headers ++ [("access-control-allow-origin", "*")] } := by
  have hpath : Resource.ofPath? r.target.path = some .testRun := by
    rw [h.path]
    rfl
  have hanswer : answer b s r = respond (runTests b s r) := by
    unfold answer
    rw [h.method, hpath]
    rfl
  rw [serve, hanswer]

theorem serve_of_ok (h : r.AsksBatch botId processKey cases) {report : Trial.Report}
    (hrun : Trial.runBatch b s botId processKey cases w = (.ok report, w')) :
    ∃ response, serve b s r w = (.ok response, w') ∧ response.status = 200 ∧ response.body =
      some (TestReport.toJson ⟨true, b.simulated, botId, report.summary, report.results⟩) := by
  have hrespond : respond (runTests b s r) w = (.ok (.json 200
      (TestReport.toJson ⟨true, b.simulated, botId, report.summary, report.results⟩)), w') := by
    rw [respond, runTests_eq h, bind_of_ok hrun]
    rfl
  exact ⟨_, (congrFun (serve_eq h b s) w).trans (bind_of_ok hrespond _), rfl, rfl⟩

theorem serve_of_failed (h : r.AsksBatch botId processKey cases) {f : Failure}
    (hrun : Trial.runBatch b s botId processKey cases w = (.error (.failed f), w')) :
    ∃ response, serve b s r w = (.ok response, w') ∧
      response.status = Response.statusOf f ∧
      response.body = some (Refusal.toJson ⟨false, Response.textOf f⟩) := by
  have hrespond : respond (runTests b s r) w = (.ok (.ofFailure f), w') := by
    rw [respond, runTests_eq h, bind_of_error hrun]
  exact ⟨_, (congrFun (serve_eq h b s) w).trans (bind_of_ok hrespond _), rfl, rfl⟩

theorem serve_of_stop (h : r.AsksBatch botId processKey cases) {stop : Stop}
    (hstop : ∀ f, stop ≠ .failed f)
    (hrun : Trial.runBatch b s botId processKey cases w = (.error stop, w')) :
    serve b s r w = (.error stop, w') := by
  have hrespond : respond (runTests b s r) w = (.error stop, w') := by
    rw [respond, runTests_eq h, bind_of_error hrun]
    cases stop with
    | failed f => exact absurd rfl (hstop f)
    | overflow => rfl
    | unsettled => rfl
  exact (congrFun (serve_eq h b s) w).trans (bind_of_error hrespond _)

/-- Where the failure of a batch comes from, when its process key is not blank. -/
theorem origin_of_failure (hkey : Text.isBlankText processKey = false) {f : Failure}
    (h : Trial.runBatch b s botId processKey cases w = (.error (.failed f), w')) :
    b.Answers f ∨ f = .invalidRequest "jobId is required" ∧ ¬ b.NamesJobs := by
  obtain ⟨done, c, rest, report, v, -, -, hcase⟩ := Trial.runBatch_error h
  rcases Trial.runCase_error hcase with hanswers | ⟨reason, rfl, hrefused⟩
  · exact .inl hanswers
  · cases hrefused with
    | blankKey blank calls =>
      rw [blank] at hkey
      cases hkey
    | blankId key nameless calls => exact .inr ⟨rfl, nameless⟩

/-- The answer to a request for a batch, for any orchestrator.  Either the batch is run to its end,
and the answer is 200 with one result for each case.  Or a call of a case fails, and the answer is a
refusal: 500 exactly if the failure is the orchestrator's or on the way to it, 404 exactly if
something was not found, and 400 exactly if a request was invalid.  Or the batch is broken off
between two calls of a case, and there is no answer.  So an answer is 200 or 500 if no other failure
is ever answered to a call and all jobs have ids. -/
theorem batch_answered_by_kind_of_failure (b : Backend σ) (s : Trial.Settings)
    (h : r.AsksBatch botId processKey cases) (w : World σ) :
    ((∃ report response w', Trial.runBatch b s botId processKey cases w = (.ok report, w') ∧
        serve b s r w = (.ok response, w') ∧ response.status = 200 ∧
        response.body =
          some (TestReport.toJson ⟨true, b.simulated, botId, report.summary, report.results⟩) ∧
        report.results.map (·.caseId) = cases.map (·.caseId)) ∨
      (∃ f response w' done c rest v visits call,
        Trial.runBatch b s botId processKey cases w = (.error (.failed f), w') ∧
        cases = done ++ c :: rest ∧ Trial.CaseBreaks b botId processKey c v visits call f w' ∧
        serve b s r w = (.ok response, w') ∧
        response.body = some (Refusal.toJson ⟨false, Response.textOf f⟩) ∧
        (response.status = 500 ∨ response.status = 404 ∨ response.status = 400) ∧
        (response.status = 500 ↔ f.isUpstream = true) ∧
        (response.status = 404 ↔ ∃ what, f = .notFound what) ∧
        (response.status = 400 ↔ ∃ reason, f = .invalidRequest reason) ∧
        (b.Answers f ∨ f = .invalidRequest "jobId is required" ∧ ¬ b.NamesJobs)) ∨
      (∃ stop w' done c rest v visits,
        Trial.runBatch b s botId processKey cases w = (.error stop, w') ∧
        cases = done ++ c :: rest ∧ Trial.CaseStops b s botId processKey c v visits stop w' ∧
        serve b s r w = (.error stop, w'))) ∧
    ∀ response w', serve b s r w = (.ok response, w') → (∀ f, b.Answers f → f.isUpstream = true) →
      b.NamesJobs → response.status = 200 ∨ response.status = 500 := by
  rcases Trial.runBatch_cases b s botId processKey cases w with
    ⟨report, w', blocks, hrun, hbatch, -⟩ |
    ⟨f, w', done, c, rest, blocks, results, v, visits, call, hrun, hcases, -, hbreaks⟩ |
    ⟨stop, w', done, c, rest, blocks, results, v, visits, hrun, hcases, -, hstops⟩
  · obtain ⟨response, hserve, hstatus, hbody⟩ := serve_of_ok h hrun
    have hids : report.results.map (·.caseId) = cases.map (·.caseId) := by
      simpa [Function.comp_def] using congrArg (List.map Prod.fst) hbatch.results_eq
    refine ⟨.inl ⟨report, response, w', hrun, hserve, hstatus, hbody, hids⟩, ?_⟩
    intro response' w'' hserve' _ _
    cases hserve.symm.trans hserve'
    exact .inl hstatus
  · obtain ⟨response, hserve, hstatus, hbody⟩ := serve_of_failed h hrun
    have horigin := origin_of_failure h.processKey hrun
    refine ⟨.inr (.inl ⟨f, response, w', done, c, rest, v, visits, call, hrun, hcases, hbreaks,
      hserve, hbody, ?_⟩), ?_⟩
    · rw [hstatus]
      refine ⟨?_, Response.statusOf_eq_500_iff f, Response.statusOf_eq_404_iff f,
        Response.statusOf_eq_400_iff f, horigin⟩
      cases f <;> simp [Response.statusOf]
    · intro response' w'' hserve' hupstream hnames
      cases hserve.symm.trans hserve'
      rcases horigin with hanswers | ⟨-, hnameless⟩
      · exact .inr (hstatus.trans ((Response.statusOf_eq_500_iff f).mpr (hupstream f hanswers)))
      · exact absurd hnames hnameless
  · have hserve := serve_of_stop h hstops.reason.ne_failed hrun
    refine ⟨.inr (.inr ⟨stop, w', done, c, rest, v, visits, hrun, hcases, hstops, hserve⟩), ?_⟩
    intro response w'' hserve'
    cases hserve.symm.trans hserve'

/-- No job can be started, and the answer is 500. -/
theorem batch_answered_refused :
    let script : Script := { start := [.error (.refused 502 "bad gateway")] }
    let w : World Script := { state := script, opened := ⟨20000, 0, 0⟩ }
    oneCase.AsksBatch "B" "P" [{ caseId := "T" }] ∧
      ∃ response w', serve (Script.orchestrator true 0) {} oneCase w = (.ok response, w') ∧
        response.status = 500 := by
  intro script w
  have hcase : ∃ w', Trial.runCase (Script.orchestrator true 0) {} "B" "P" { caseId := "T" } w =
      (.error (.failed (.refused 502 "bad gateway")), w') :=
    ⟨_, Trial.runCase_of_unstarted (by decide) rfl rfl⟩
  have hrun : (Trial.runBatch (Script.orchestrator true 0) {} "B" "P" [{ caseId := "T" }] w).1 =
      .error (.failed (.refused 502 "bad gateway")) := by
    obtain ⟨w', hcase⟩ := hcase
    rw [Trial.runBatch_cons, bind_of_error hcase]
  refine ⟨oneCase_asksBatch, ?_⟩
  have hanswered := (batch_answered_by_kind_of_failure (Script.orchestrator true 0) {}
    oneCase_asksBatch w).1
  rcases hanswered with ⟨report, response, w', hok, -⟩ |
    ⟨f, response, w', done, c, rest, v, visits, call, hfails, -, -, hserve, -, -, h500, -⟩ |
    ⟨stop, w', done, c, rest, v, visits, hstops, -, hcase, -⟩
  · rw [hok] at hrun
    cases hrun
  · rw [hfails] at hrun
    cases hrun
    exact ⟨response, w', hserve, h500.mpr rfl⟩
  · rw [hstops] at hrun
    cases hrun
    cases hcase.reason

/-- A lookup finds no job, and the answer is 404. -/
theorem batch_answered_not_found :
    let job := JobRecord.mk "J-1" "P" .pending ⟨20000, 0, 0⟩ none none none none
    let script : Script :=
      { start := [.ok job], get := [.error (.notFound "Job not found: J-1")] }
    let w : World Script := { state := script, opened := ⟨20000, 0, 0⟩ }
    (serve (Script.orchestrator true 0) {} oneCase w).1.toOption.map
        (fun response => (response.status, response.body.map Json.render)) =
      some (404, some "\x7b\"ok\":false,\"error\":\"Job not found: J-1\"\x7d") := by
  decide +kernel

end Endpoint
end RobotDesk
