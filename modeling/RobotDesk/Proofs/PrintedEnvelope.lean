import RobotDesk.CommandLine.Task
import RobotDesk.Proofs.BatchEndpoint
import RobotDesk.Proofs.OutputFormat
import RobotDesk.Proofs.RequestContract

/-!
What a command prints as JSON, beside what the service answers to the same request.

The service puts what it answers into an envelope, with `ok` and `mock` in front.  A test run and a
look at the health print this envelope.  All other commands print only what is inside of it: a job,
jobs, an asset, or nothing once an asset has been set.  Also, a test run goes on without a name for
the bot, where the service refuses the request.
-/
namespace RobotDesk

namespace Endpoint

open Envelope

/-- The body for a success, with its contents. -/
def envelope (mock : Bool) (contents : List (String × Json)) : Json :=
  .object (("ok", .bool true) :: ("mock", .bool mock) :: contents)

/-- What an answer puts into its envelope. -/
def contents : (call : Call) → call.Answer → List (String × Json)
  | .startJob _, job | .getJob _, job => [("job", job.toJson)]
  | .listJobs _, jobs => [("jobs", .array (jobs.map JobRecord.toJson))]
  | .setAsset _, _ => []
  | .getAsset _, asset => [("asset", asset.toJson)]
  | .health, _ => [("upstream", .string "healthy")]

theorem successBody_eq (mock : Bool) (call : Call) (answer : call.Answer) :
    successBody mock call answer = envelope mock (contents call answer) := by
  cases call <;> rfl

/-- An envelope is not among its own contents. -/
theorem not_envelope_mem (mock : Bool) (contents : List (String × Json)) :
    envelope mock contents ∉ contents.map (·.2) := by
  intro h
  obtain ⟨⟨name, value⟩, hmem, hvalue⟩ := List.mem_map.mp h
  have hsize := List.sizeOf_lt_of_mem hmem
  have hsize' := congrArg sizeOf hvalue
  simp [envelope] at hsize hsize'
  omega

/-- A request asks for one call only. -/
theorem Request.Asks.unique {r : Request} {service : Service} {call call' : Call}
    (h : r.Asks service call) (h' : r.Asks service call') : call' = call := by
  cases h with
  | job query given named =>
    have hne := ne_empty_of_not_blank named
    cases h' with
    | job query' given' named' => simp_all
    | jobs query' noId known => simp_all [Missing]
  | jobs query noId known =>
    cases h' with
    | job query' given named =>
      have hne := ne_empty_of_not_blank named
      simp_all [Missing]
    | jobs query' noId' known' =>
      cases query.symm.trans query'
      rw [known] at known'
      rw [Option.map_injective (fun _ _ => JobStatus.name_inj.mp) known']
  | start body given named =>
    cases h' with
    | start body' given' named' =>
      obtain rfl := body.unique body'
      simp_all
  | readAsset query given nonempty =>
    cases h' with
    | readAsset query' given' nonempty' => simp_all
  | setAsset body given nonempty valueGiven valueNonempty =>
    cases h' with
    | setAsset body' given' nonempty' valueGiven' valueNonempty' =>
      obtain rfl := body.unique body'
      simp_all
  | health =>
    cases h' with
    | health => rfl

section

variable {σ : Type} {b : Backend σ} {s : Trial.Settings} {r : Request} {w w' : World σ}

/-- The answer to a request that asks for a call. -/
theorem serve_of_asks {service : Service} {call : Call} (hfor : r.IsFor service)
    (hasks : r.Asks service call) {answer : call.Answer}
    (h : Desk.operate b call w = (.ok answer, w')) :
    ∃ response, serve b s r w = (.ok response, w') ∧ response.status = 200 ∧
      response.body = some (envelope b.simulated (contents call answer)) := by
  obtain ⟨hproblem, hanswer⟩ := Desk.operate_ok h
  rw [Desk.operate_of_no_problem hproblem] at h
  have hanswered := serve_answered hfor b s w
  generalize serve b s r w = result at hanswered
  cases hanswered with
  | refused defect => exact absurd defect hasks.not_defect
  | @asked call' response asks status body =>
    obtain rfl := hasks.unique asks
    rw [hanswer] at status body
    rw [← successBody_eq, h]
    exact ⟨response, rfl, status, body⟩

/-- A test run without a name for the bot is refused before anything is done. -/
theorem serve_nameless (hmethod : r.method = "POST") (hpath : r.target.path = "/api/test/run")
    {plan : TestPlan} {botId : String} (hplan : r.readBody TestPlan.codec = .ok plan)
    (hbot : plan.botId = some botId) (hblank : Text.isBlankText botId = true) :
    ∃ response, serve b s r w = (.ok response, w) ∧ response.status = 400 ∧
      response.body = some (refusal "botId, processKey and cases are required") := by
  have hpresent : present plan.botId = none := by simp [present, hbot, hblank]
  have hbatch : (batchOf r : Session σ _) w =
      (.error (.invalidRequest "botId, processKey and cases are required"), w) := by
    unfold batchOf
    rw [hplan, need_ok_bind, hpresent, required, need_error_bind]
    rfl
  have hrun : runTests b s r w =
      (.error (.failed (.invalidRequest "botId, processKey and cases are required")), w) :=
    bind_of_error (Work.lift_of_error hbatch) _
  have hanswer : answer b s r w =
      (.ok (.ofFailure (.invalidRequest "botId, processKey and cases are required")), w) := by
    unfold answer
    rw [hmethod, hpath]
    change respond (runTests b s r) w = _
    rw [respond, hrun]
  exact ⟨_, bind_of_ok hanswer _, rfl, rfl⟩

end

end Endpoint

namespace CommandLine

open Endpoint (envelope contents Service)
open Time (nanosPerSecond)

variable {σ : Type} {b : Backend σ} {w w' : World σ}

/-- The value of a print, if it is one. -/
def Print.value? : Print → Option Json
  | .scene _ => none
  | .value v => some v

/-- The JSON values among what is shown. -/
def Showing.values (s : Showing) : List Json := s.prints.filterMap Print.value?

theorem filterMap_value (values : List Json) :
    (values.map Print.value).filterMap Print.value? = values := by
  induction values with
  | nil => rfl
  | cons v values ih => exact congrArg (v :: ·) ih

theorem finish_of_ok {α : Type} {work : Work σ α} {v : α} (h : work w = (.ok v, w'))
    (context : List String) (before : List Print) (after : α → Showing) :
    finish work context before after w =
      ({ after v with prints := before ++ (after v).prints }, w') := by
  rw [finish, h]

theorem finish_of_failed {α : Type} {work : Work σ α} {f : Failure}
    (h : work w = (.error (.failed f), w')) (context : List String) (before : List Print)
    (after : α → Showing) : (finish work context before after w).1.exitCode ≠ 0 := by
  rw [finish, h]
  simp [Showing.exitCode]

namespace Task

/-- The task that makes one call. -/
def ofCall : Call → Task
  | .startJob request => .startJob request none
  | .getJob jobId => .getJob jobId
  | .listJobs filter => .listJobs filter
  | .setAsset asset => .setAsset asset
  | .getAsset name => .getAsset name
  | .health => .health

/-- Whether a task prints the whole envelope of the answer to it. -/
def printsEnvelope : Task → Bool
  | .runTests _ _ _ _ | .health => true
  | _ => false

/-- Whether the bot of a test run has a name that is not blank. -/
def namesBot : Task → Bool
  | .runTests botId _ _ _ => !Text.isBlankText botId
  | _ => true

/-- The values that are printed for the answer to a call. -/
def answered (simulated : Bool) (call : Call) (answer : call.Answer) : List Json :=
  if (ofCall call).printsEnvelope then [envelope simulated (contents call answer)]
  else (contents call answer).map (·.2)

theorem perform_ofCall_of_ok {call : Call} {answer : call.Answer}
    (h : Desk.operate b call w = (.ok answer, w')) :
    (ofCall call).perform b true w =
      ({ prints := (answered b.simulated call answer).map .value }, w') := by
  cases call with
  | startJob request =>
    change startTask b true request none w = _
    rw [startTask, show Desk.startJob b request w = _ from h]
    rfl
  | health =>
    change healthTask b true w = _
    rw [healthTask, show Desk.health b w = _ from h]
    rfl
  | _ => exact finish_of_ok (Work.lift_of_ok h) _ _ _

theorem perform_ofCall_of_error {call : Call} {f : Failure}
    (h : Desk.operate b call w = (.error f, w')) :
    ((ofCall call).perform b true w).1.exitCode ≠ 0 := by
  cases call with
  | startJob request =>
    change (startTask b true request none w).1.exitCode ≠ 0
    rw [startTask, show Desk.startJob b request w = _ from h]
    simp [Showing.exitCode]
  | health =>
    change (healthTask b true w).1.exitCode ≠ 0
    rw [healthTask, show Desk.health b w = _ from h]
    simp [Showing.exitCode]
  | _ => exact finish_of_failed (Work.lift_of_error h) _ _ _

/-- A task of one call succeeds exactly with its call. -/
theorem perform_ofCall {call : Call} (h : ((ofCall call).perform b true w).1.exitCode = 0) :
    ∃ answer, Desk.operate b call w = (.ok answer, ((ofCall call).perform b true w).2) ∧
      ((ofCall call).perform b true w).1.prints =
        (answered b.simulated call answer).map .value := by
  obtain ⟨result, w', hoperate⟩ : ∃ result w', Desk.operate b call w = (result, w') := ⟨_, _, rfl⟩
  cases result with
  | error f => exact absurd h (perform_ofCall_of_error hoperate)
  | ok answer =>
    rw [perform_ofCall_of_ok hoperate]
    exact ⟨answer, hoperate, rfl⟩

end Task

/-- A request to the service for what a task does, with the same arguments and, for a test run, the
same time for each case. -/
inductive Corresponds (r : Endpoint.Request) (s : Trial.Settings) : Task → Prop where
  | startJob {order : Envelope.JobOrder} {key : String} (isFor : r.IsFor .startJob)
      (body : r.Carries Envelope.JobOrder.codec order) (given : order.processKey = some key) :
      Corresponds r s (.startJob ⟨key, order.robotName, order.inputArguments.getD .empty⟩ none)
  | getJob {q : Envelope.JobsQuery} {id : String} (isFor : r.IsFor .findJobs)
      (query : r.jobsQuery = .ok q) (given : q.jobId = some id) : Corresponds r s (.getJob id)
  | listJobs {q : Envelope.JobsQuery} {status : Option JobStatus} (isFor : r.IsFor .findJobs)
      (query : r.jobsQuery = .ok q) (noId : q.jobId = none)
      (known : q.status = status.map JobStatus.name) :
      Corresponds r s (.listJobs ⟨q.processKey, status⟩)
  | getAsset {q : Envelope.AssetQuery} {name : String} (isFor : r.IsFor .readAsset)
      (query : r.assetQuery = .ok q) (given : q.name = some name) : Corresponds r s (.getAsset name)
  | setAsset {order : Envelope.AssetOrder} {name value : String} (isFor : r.IsFor .setAsset)
      (body : r.Carries Envelope.AssetOrder.codec order) (given : order.name = some name)
      (valueGiven : order.value = some value) :
      Corresponds r s (.setAsset ⟨name, order.type.getD .text, value⟩)
  | runTests {botId processKey : String} {cases : List TestCase} {deadline : Nat}
      (method : r.method = "POST") (path : r.target.path = "/api/test/run")
      (plan : r.readBody Envelope.TestPlan.codec = .ok ⟨some botId, some processKey, some cases⟩)
      (some_ : cases ≠ []) (pace : s = { deadline := deadline * nanosPerSecond }) :
      Corresponds r s (.runTests botId processKey cases deadline)
  | health (isFor : r.IsFor .health) : Corresponds r s .health

/-- Nothing is wrong with a call that succeeds, so that a request for it asks for it. -/
theorem Corresponds.asks {r : Endpoint.Request} {s : Trial.Settings} {task : Task}
    (h : Corresponds r s task) (hok : (task.perform b true w).1.exitCode = 0) :
    (∃ service call, task = .ofCall call ∧ r.IsFor service ∧ r.Asks service call) ∨
      ∃ botId processKey cases deadline, task = .runTests botId processKey cases deadline := by
  have hproblem (call : Call) (h : ((Task.ofCall call).perform b true w).1.exitCode = 0) :
      Desk.problem? call = none := by
    obtain ⟨answer, hoperate, -⟩ := Task.perform_ofCall h
    exact (Desk.operate_ok hoperate).1
  cases h with
  | @startJob order key isFor body given =>
    have hkey := (Desk.problem?_startJob_eq_none_iff _).mp (hproblem (.startJob _) hok)
    exact .inl ⟨_, .startJob _, rfl, isFor, .start body given hkey⟩
  | @getJob q id isFor query given =>
    have hid := (Desk.problem?_getJob_eq_none_iff _).mp (hproblem (.getJob _) hok)
    exact .inl ⟨_, .getJob id, rfl, isFor, .job query given hid⟩
  | listJobs isFor query noId known =>
    exact .inl ⟨_, .listJobs _, rfl, isFor, .jobs query (.inl noId) known⟩
  | @getAsset q name isFor query given =>
    have hname : name ≠ "" := by simpa [Desk.problem?] using hproblem (.getAsset name) hok
    exact .inl ⟨_, .getAsset name, rfl, isFor, .readAsset query given hname⟩
  | @setAsset order name value isFor body given valueGiven =>
    have hparts : name ≠ "" ∧ value ≠ "" := by
      simpa [Desk.problem?] using hproblem (.setAsset ⟨name, _, value⟩) hok
    exact .inl ⟨_, .setAsset _, rfl, isFor, .setAsset body given hparts.1 valueGiven hparts.2⟩
  | runTests => exact .inr ⟨_, _, _, _, rfl⟩
  | health isFor => exact .inl ⟨_, .health, rfl, isFor, .health⟩

section

variable {botId processKey : String} {cases : List TestCase} {deadline : Nat}
  {report : Trial.Report}

theorem perform_runTests
    (hrun : Trial.runBatch b { deadline := deadline * nanosPerSecond } botId processKey cases w =
      (.ok report, w')) :
    ((Task.runTests botId processKey cases deadline).perform b true w).2 = w' ∧
      ((Task.runTests botId processKey cases deadline).perform b true w).1.prints =
        [.value (Envelope.TestReport.toJson
          ⟨true, b.simulated, botId, report.summary, report.results⟩)] := by
  have hperform := finish_of_ok hrun ["Test run aborted"] [] (reported true b.simulated botId)
  exact ⟨congrArg Prod.snd hperform, congrArg (·.1.prints) hperform⟩

end

section

variable {r : Endpoint.Request} {s : Trial.Settings} {task : Task}

/-- A command that succeeds is answered by the service with an envelope, unless a bot has no name.
-/
theorem Corresponds.answered (h : Corresponds r s task)
    (hok : (task.perform b true w).1.exitCode = 0) (hbot : task.namesBot = true) :
    ∃ response contents, Endpoint.serve b s r w = (.ok response, (task.perform b true w).2) ∧
      response.status = 200 ∧ response.body = some (envelope b.simulated contents) ∧
      (task.perform b true w).1.prints =
        (if task.printsEnvelope then [envelope b.simulated contents]
          else contents.map (·.2)).map .value := by
  rcases h.asks hok with
    ⟨service, call, rfl, hfor, hasks⟩ | ⟨botId, processKey, cases, deadline, rfl⟩
  · obtain ⟨answer, hoperate, hprints⟩ := Task.perform_ofCall hok
    obtain ⟨response, hserve, hstatus, hbody⟩ :=
      Endpoint.serve_of_asks (s := s) hfor hasks hoperate
    exact ⟨response, _, hserve, hstatus, hbody, hprints⟩
  · cases h with
    | runTests method path plan nonempty pace =>
      subst pace
      obtain ⟨report, w', hrun, -⟩ := (runTests_exitCode ..).mp hok
      have hkey := Trial.key_of_runBatch_ok nonempty hrun
      have hasks : r.AsksBatch botId processKey cases :=
        ⟨method, path, plan, by simpa [Task.namesBot] using hbot, hkey, nonempty⟩
      obtain ⟨response, hserve, hstatus, hbody⟩ := Endpoint.serve_of_ok hasks hrun
      obtain ⟨hworld, hprints⟩ := perform_runTests hrun
      rw [← hworld] at hserve
      exact ⟨response, _, hserve, hstatus, hbody, hprints⟩

/-- A test run is refused by the service if its bot has no name, though its command prints a
report. -/
theorem Corresponds.refused (h : Corresponds r s task)
    (hok : (task.perform b true w).1.exitCode = 0) (hbot : task.namesBot = false) :
    ∃ response text contents, Endpoint.serve b s r w = (.ok response, w) ∧
      response.status = 400 ∧ response.body = some (Endpoint.refusal text) ∧
      (task.perform b true w).1.prints = [.value (envelope b.simulated contents)] := by
  cases h with
  | runTests method path plan nonempty pace =>
    obtain ⟨response, hserve, hstatus, hbody⟩ := Endpoint.serve_nameless (b := b) (s := s) (w := w)
      method path plan rfl (by simpa [Task.namesBot] using hbot)
    obtain ⟨report, w', hrun, -⟩ := (runTests_exitCode ..).mp hok
    exact ⟨response, _, _, hserve, hstatus, hbody, (perform_runTests hrun).2⟩
  | _ => cases hbot

end

theorem Showing.values_eq {s : Showing} {values : List Json} (h : s.prints = values.map .value) :
    s.values = values := by
  rw [Showing.values, h, filterMap_value]

/-- Values are printed one after the other, each at the end of a line. -/
theorem Showing.text_eq {s : Showing} {values : List Json} (h : s.prints = values.map .value)
    (color : Bool) : s.text color = String.join (s.values.map fun v => line v.pretty) := by
  rw [Showing.values_eq h, Showing.text, h, List.map_map]
  rfl

/-- What a command that succeeds prints as JSON, beside the answer of the service to the same
request in the same world.  It prints its values, one after the other.  If the request is for a test
run whose bot has no name, it is refused.  Else it is answered with 200 and an envelope, and the
worlds after it are the same; the command prints the envelope if it runs tests or looks at the
health, and only the contents if it does anything else.  So the two agree in these two cases alone.
-/
theorem printed_beside_response {r : Endpoint.Request} {s : Trial.Settings} {task : Task}
    (h : Corresponds r s task) (hok : (task.perform b true w).1.exitCode = 0) (color : Bool) :
    let shown := (task.perform b true w).1
    ∃ response w', Endpoint.serve b s r w = (.ok response, w') ∧
      shown.text color = String.join (shown.values.map fun v => line v.pretty) ∧
      (task.namesBot = true → response.status = 200 ∧ w' = (task.perform b true w).2 ∧
        ∃ contents, response.body = some (envelope b.simulated contents) ∧
          shown.values =
            if task.printsEnvelope then [envelope b.simulated contents] else contents.map (·.2)) ∧
      (task.namesBot = false → response.status = 400 ∧ w' = w ∧
        ∃ text, response.body = some (Endpoint.refusal text)) ∧
      (shown.values = response.body.toList ↔
        task.printsEnvelope = true ∧ task.namesBot = true) := by
  intro shown
  cases hbot : task.namesBot with
  | true =>
    obtain ⟨response, contents, hserve, hstatus, hbody, hprints⟩ := h.answered hok hbot
    refine ⟨response, _, hserve, Showing.text_eq hprints color,
      fun _ => ⟨hstatus, rfl, contents, hbody, Showing.values_eq hprints⟩, by simp, ?_⟩
    rw [show shown.values = _ from Showing.values_eq hprints, hbody, Option.toList_some]
    cases htask : task.printsEnvelope with
    | true => simp
    | false =>
      have hnot := Endpoint.not_envelope_mem b.simulated contents
      constructor
      · intro heq
        simp only [Bool.false_eq_true, if_false] at heq
        rw [heq] at hnot
        exact absurd (List.mem_singleton.mpr rfl) hnot
      · rintro ⟨⟨⟩, -⟩
  | false =>
    obtain ⟨response, text, contents, hserve, hstatus, hbody, hprints⟩ := h.refused hok hbot
    have hprints : shown.prints = [envelope b.simulated contents].map .value := hprints
    refine ⟨response, w, hserve, Showing.text_eq hprints color, by simp,
      fun _ => ⟨hstatus, rfl, text, hbody⟩, ?_⟩
    rw [Showing.values_eq hprints, hbody]
    simp [envelope, Endpoint.refusal]

/-- A test run prints the body of the answer. -/
theorem printed_beside_response_of_tests :
    let job := JobRecord.mk "J-1" "P" .successful ⟨20000, 0, 0⟩ none none
      (some (.ofPairs [("result", .string "OK")])) none
    let script : Script := { start := [.ok job] }
    let b := Script.orchestrator true 0
    let w : World Script := { state := script, opened := ⟨20000, 0, 0⟩ }
    let task := Task.runTests "B" "P" [{ caseId := "T" }] 60
    let s : Trial.Settings := { deadline := 60 * nanosPerSecond }
    let shown := (task.perform b true w).1
    Corresponds Endpoint.oneCase s task ∧ shown.exitCode = 0 ∧
      ∃ response w', Endpoint.serve b s Endpoint.oneCase w = (.ok response, w') ∧
        shown.values = response.body.toList := by
  intro job script b w task s shown
  have hcorresponds : Corresponds Endpoint.oneCase s task :=
    .runTests rfl rfl Endpoint.readBody_oneCase (by decide) rfl
  have hok : shown.exitCode = 0 := by decide +kernel
  obtain ⟨response, w', hserve, -, -, -, hbeside⟩ := printed_beside_response hcorresponds hok false
  exact ⟨hcorresponds, hok, response, w', hserve, hbeside.mpr ⟨rfl, by decide⟩⟩

/-- An asset is printed without the envelope in which the service answers it. -/
theorem asset_printed_bare :
    let b := Simulation.orchestrator fun _ => .successful 0
    let w : World Simulation.State :=
      { state := Simulation.fresh 10 60 (.running ⟨20000, 0, 0⟩), opened := ⟨20000, 0, 0⟩ }
    let shown := ((Task.getAsset "x").perform b true w).1
    let answer := (Endpoint.serve b {} (Endpoint.assetRequest "x") w).1
    Invocation.parse (fun _ => none) ["--json", "asset", "get", "x"] =
        .ok ⟨{}, true, .getAsset "x"⟩ ∧
      Corresponds (Endpoint.assetRequest "x") {} (.getAsset "x") ∧ shown.exitCode = 0 ∧
      shown.values.map Json.render =
        ["\x7b\"name\":\"x\",\"type\":\"Text\",\"value\":\"mock_value_for_x\"\x7d"] ∧
      (answer.toOption.bind (·.body)).map Json.render =
        some ("\x7b\"ok\":true,\"mock\":true,\"asset\":\x7b\"name\":" ++
          "\"x\",\"type\":\"Text\",\"value\":\"mock_value_for_x\"\x7d\x7d") := by
  intro b w shown answer
  have hquery : (Endpoint.assetRequest "x").assetQuery = .ok ⟨some "x"⟩ := by with_unfolding_all rfl
  refine ⟨by with_unfolding_all rfl, .getAsset ⟨rfl, rfl⟩ hquery rfl, ?_, ?_, ?_⟩
  · decide +kernel
  · decide +kernel
  · decide +kernel

end CommandLine
end RobotDesk
