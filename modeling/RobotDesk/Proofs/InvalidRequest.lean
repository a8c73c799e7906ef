import RobotDesk.CommandLine.Task
import RobotDesk.Proofs.OwnJob

/-!
What has happened when a request turns out to be invalid.

The desk checks what an operation is given before it asks the orchestrator, so that an operation
that it refuses has made no call.  A test case is several operations.  Its input is always in order
and is staged first; after that its job is not started if the process key is blank, and a job whose
id is blank cannot be looked up.  So a case or a batch that is refused has always made calls, and a
command that runs tests or waits for a job may have.  This needs a blank process key, or an
orchestrator that gives a job a blank id; there is no other way.
-/
namespace RobotDesk

namespace Backend

variable {σ : Type}

/-- Whether an orchestrator may answer with a failure. -/
def Answers (b : Backend σ) (f : Failure) : Prop :=
  ∃ call now state, (b.serve call now state).answer = .error f

/-- An orchestrator that leaves it to the desk to call a request invalid. -/
def NeverInvalid (b : Backend σ) : Prop := ∀ reason, ¬ b.Answers (.invalidRequest reason)

/-- An orchestrator that gives every job an id which is not blank, when it is started and when it is
looked up under such an id. -/
structure NamesJobs (b : Backend σ) : Prop where
  start : ∀ request now state job, (b.serve (.startJob request) now state).answer = .ok job →
    Text.isBlankText job.jobId = false
  get : ∀ jobId now state job, Text.isBlankText jobId = false →
    (b.serve (.getJob jobId) now state).answer = .ok job → Text.isBlankText job.jobId = false

end Backend

/-- In the simulation nothing fails but lookups, and these because a job is not found. -/
theorem Simulation.neverInvalid_orchestrator (outcome : Nat → Outcome) :
    (orchestrator outcome).NeverInvalid := by
  rintro reason ⟨call, now, s, h⟩
  cases call with
  | getJob jobId =>
    change (s.get jobId (s.clock.read now)).1 = _ at h
    rw [State.get_fst] at h
    cases hfound : (s.registry.get jobId (s.clock.read now)).1 with
    | none =>
      rw [hfound] at h
      cases h
    | some job =>
      rw [hfound] at h
      cases h
  | startJob request => cases h
  | listJobs filter => cases h
  | setAsset asset => cases h
  | getAsset name => cases h
  | health => cases h

/-- The simulation gives its jobs ids, and finds each under its own. -/
theorem Simulation.namesJobs_orchestrator (outcome : Nat → Outcome) :
    (orchestrator outcome).NamesJobs where
  start := by
    intro request now s job h
    cases h
    exact isBlankText_jobId _
  get := by
    intro jobId now s job hnamed h
    rw [faithful_orchestrator outcome jobId now s job h]
    exact hnamed

variable {σ : Type} {b : Backend σ}

namespace Desk

theorem answers_of_operate_error {call : Call} {w v : World σ} {f : Failure}
    (hp : problem? call = none) (h : operate b call w = (.error f, v)) : b.Answers f := by
  rcases operate_error h with ⟨reason, hreason, -, -⟩ | ⟨-, hanswer⟩
  · rw [hp] at hreason
    cases hreason
  · exact ⟨call, w.now, w.state, hanswer⟩

/-- An operation is invalid only if the desk refuses it, and then nothing has happened. -/
theorem operate_invalid (hb : b.NeverInvalid) {call : Call} {w v : World σ} {reason : String}
    (h : operate b call w = (.error (.invalidRequest reason), v)) : v = w := by
  rcases operate_error h with ⟨reason', -, -, hv⟩ | ⟨-, hanswer⟩
  · exact hv
  · exact absurd ⟨call, w.now, w.state, hanswer⟩ (hb reason)

end Desk

namespace Polling

variable {interval deadline polls : Nat} {job : JobRecord} {w w' : World σ}

theorem Watch.named (hb : b.NamesJobs) {answers : List JobRecord}
    (h : Watch b interval deadline w job answers w') :
    ∀ a ∈ answers, Text.isBlankText a.jobId = false := by
  induction h with
  | done w job =>
    intro a ha
    cases ha
  | poll unfinished early told lookup rest ih =>
    intro a ha
    rcases List.mem_cons.mp ha with rfl | ha
    · obtain ⟨hproblem, hanswer⟩ := Desk.operate_ok lookup
      exact hb.get _ _ _ _ ((Desk.problem?_getJob_eq_none_iff _).mp hproblem) hanswer
    · exact ih a ha

/-- Watching a job fails because the orchestrator answers so, or because an id is blank; in an
orchestrator that names its jobs this can only be the one that was given. -/
theorem Concludes.error {f : Failure}
    (h : Concludes b interval deadline polls job w (.error (.failed f), w')) :
    b.Answers f ∨ f = .invalidRequest "jobId is required" ∧
      (b.NamesJobs → Text.isBlankText job.jobId = true) := by
  cases h with
  | @failed answers v w' f watch unfinished early told failure =>
  rcases Desk.operate_error failure with ⟨reason, hreason, rfl, -⟩ | ⟨hp, -⟩
  · obtain ⟨hblank, rfl⟩ := Desk.problem?_getJob hreason
    refine .inr ⟨rfl, fun hb => ?_⟩
    rcases List.mem_cons.mp (List.getLastD_mem_cons (l := answers) (a := job)) with hlast | hlast
    · rwa [hlast] at hblank
    · rw [watch.named hb _ hlast] at hblank
      cases hblank
  · exact .inl (Desk.answers_of_operate_error hp failure)

end Polling

namespace Trial

variable {s : Settings} {botId processKey : String} {c : TestCase} {w w' : World σ}

/-- A case is refused after calls.  With a blank process key its input has been staged; otherwise
the job has been started too, and an id was blank. -/
inductive RefusedLate (b : Backend σ) (botId processKey : String) (c : TestCase) (w : World σ) :
    String → World σ → Prop where
  | blankKey {w' : World σ} (blank : Text.isBlankText processKey = true)
      (calls : w'.calls = w.calls ++ [⟨w.now, .setAsset (stagedInput botId c)⟩]) :
      RefusedLate b botId processKey c w "processKey is required" w'
  | blankId {w' : World σ} {time : Nat} {rest : List Visit}
      (key : Text.isBlankText processKey = false) (nameless : ¬ b.NamesJobs)
      (calls : w'.calls = w.calls ++ ⟨w.now, .setAsset (stagedInput botId c)⟩ ::
        ⟨time, .startJob (request processKey c)⟩ :: rest) :
      RefusedLate b botId processKey c w "jobId is required" w'

/-- A job is started only for a process key that is not blank. -/
theorem key_of_started {job : JobRecord} {v : World σ}
    (h : Desk.operate b (.startJob (request processKey c)) w = (.ok job, v)) :
    Text.isBlankText processKey = false :=
  (Desk.problem?_startJob_eq_none_iff (request processKey c)).mp (Desk.operate_ok h).1

/-- A case fails because the orchestrator answers so, or is refused after calls. -/
theorem runCase_error {f : Failure}
    (h : runCase b s botId processKey c w = (.error (.failed f), w')) :
    b.Answers f ∨ ∃ reason, f = .invalidRequest reason ∧
      RefusedLate b botId processKey c w reason w' := by
  have hfollowed := follow_followed b s botId processKey c w
  generalize hrun : follow b s botId processKey c w = result at hfollowed
  cases hfollowed with
  | undated untold => cases (runCase_eq hrun).symm.trans h
  | unstaged told failure =>
    cases (runCase_eq hrun).symm.trans h
    exact .inl (Desk.answers_of_operate_error (problem?_stagedInput botId c) failure)
  | unstarted told staged failure =>
    cases (runCase_eq hrun).symm.trans h
    rcases Desk.operate_error failure with ⟨reason, hreason, rfl, rfl⟩ | ⟨hp, -⟩
    · obtain ⟨hblank, rfl⟩ := Desk.problem?_startJob hreason
      exact .inr ⟨_, rfl, .blankKey hblank (Desk.visit_of_operate_ok staged).1⟩
    · exact .inl (Desk.answers_of_operate_error hp failure)
  | @watched answer job v u _ told staged started watch =>
    cases answer with
    | ok ending => cases (runCase_eq hrun).symm.trans h
    | error stop =>
      cases (runCase_eq hrun).symm.trans h
      rcases (Polling.concludes_of_untilTerminal watch).error with hanswers | ⟨rfl, hblank⟩
      · exact .inl hanswers
      · have hnameless : ¬ b.NamesJobs := by
          intro hb
          have hnamed := hb.start _ _ _ _ (Desk.operate_ok started).2
          rw [hblank hb] at hnamed
          cases hnamed
        obtain ⟨visits, hcalls, -⟩ := calls_of_watched staged started watch
        exact .inr ⟨_, rfl, .blankId (key_of_started started) hnameless hcalls⟩

theorem key_of_runCase_ok {r : TestResult} (h : runCase b s botId processKey c w = (.ok r, w')) :
    Text.isBlankText processKey = false := by
  have hfollowed := follow_followed b s botId processKey c w
  generalize hrun : follow b s botId processKey c w = result at hfollowed
  cases hfollowed with
  | undated untold => cases (runCase_eq hrun).symm.trans h
  | unstaged told failure => cases (runCase_eq hrun).symm.trans h
  | unstarted told staged failure => cases (runCase_eq hrun).symm.trans h
  | watched told staged started watch => exact key_of_started started

/-- A batch ends as the first case that has no result, after the cases before it have been run. -/
theorem runBatch_error {cases : List TestCase} {stop : Stop}
    (h : runBatch b s botId processKey cases w = (.error stop, w')) :
    ∃ done c rest report v, cases = done ++ c :: rest ∧
      runBatch b s botId processKey done w = (.ok report, v) ∧
      runCase b s botId processKey c v = (.error stop, w') := by
  induction cases generalizing w with
  | nil => cases h
  | cons c rest ih =>
    rw [runBatch_cons] at h
    cases hcase : runCase b s botId processKey c w with
    | mk answer v =>
    cases answer with
    | error stop' =>
      rw [bind_of_error hcase] at h
      cases h
      exact ⟨[], c, rest, {}, w, rfl, rfl, hcase⟩
    | ok r =>
      rw [bind_of_ok hcase] at h
      cases hbatch : runBatch b s botId processKey rest v with
      | mk answer u =>
      cases answer with
      | ok report =>
        rw [bind_of_ok hbatch] at h
        cases h
      | error stop' =>
        rw [bind_of_error hbatch] at h
        cases h
        obtain ⟨done, c', rest', report, u', rfl, hdone, hfails⟩ := ih hbatch
        refine ⟨c :: done, c', rest', (Report.add {} r).append report, u', rfl, ?_, hfails⟩
        rw [runBatch_cons, bind_of_ok hcase, bind_of_ok hdone]
        rfl

theorem key_of_runBatch_ok {cases : List TestCase} (hne : cases ≠ []) {report : Report}
    (h : runBatch b s botId processKey cases w = (.ok report, w')) :
    Text.isBlankText processKey = false := by
  cases cases with
  | nil => exact absurd rfl hne
  | cons c rest =>
    rw [runBatch_cons] at h
    cases hcase : runCase b s botId processKey c w with
    | mk answer v =>
    cases answer with
    | error stop =>
      rw [bind_of_error hcase] at h
      cases h
    | ok r => exact key_of_runCase_ok hcase

/-- A batch is refused after calls: the cases before the one that is refused have been run. -/
def BatchRefusedLate (b : Backend σ) (s : Settings) (botId processKey : String)
    (cases : List TestCase) (w : World σ) (reason : String) (w' : World σ) : Prop :=
  ∃ done c rest report v, cases = done ++ c :: rest ∧
    runBatch b s botId processKey done w = (.ok report, v) ∧
    RefusedLate b botId processKey c v reason w'

theorem runCase_invalid (hb : b.NeverInvalid) {reason : String}
    (h : runCase b s botId processKey c w = (.error (.failed (.invalidRequest reason)), w')) :
    RefusedLate b botId processKey c w reason w' := by
  rcases runCase_error h with hanswers | ⟨reason', hreason, hrefused⟩
  · exact absurd hanswers (hb reason)
  · cases hreason
    exact hrefused

theorem runBatch_invalid (hb : b.NeverInvalid) {cases : List TestCase} {reason : String}
    (h : runBatch b s botId processKey cases w = (.error (.failed (.invalidRequest reason)), w')) :
    BatchRefusedLate b s botId processKey cases w reason w' := by
  obtain ⟨done, c, rest, report, v, hcases, hdone, hfails⟩ := runBatch_error h
  exact ⟨done, c, rest, report, v, hcases, hdone, runCase_invalid hb hfails⟩

/-- With a blank process key it is the first case that is refused, once its input is staged. -/
theorem BatchRefusedLate.of_blank {cases : List TestCase} {reason : String}
    (h : BatchRefusedLate b s botId processKey cases w reason w')
    (hblank : Text.isBlankText processKey = true) :
    ∃ c rest, cases = c :: rest ∧ reason = "processKey is required" ∧
      w'.calls = w.calls ++ [⟨w.now, .setAsset (stagedInput botId c)⟩] := by
  obtain ⟨done, c, rest, report, v, hcases, hdone, hrefused⟩ := h
  cases done with
  | cons first done =>
    rw [key_of_runBatch_ok (List.cons_ne_nil first done) hdone] at hblank
    cases hblank
  | nil =>
    cases hdone
    cases hrefused with
    | blankKey blank calls => exact ⟨c, rest, hcases, rfl, calls⟩
    | blankId key nameless calls =>
      rw [key] at hblank
      cases hblank

/-- Without a blank process key, a batch is refused only after a job with a blank id. -/
theorem BatchRefusedLate.nameless {cases : List TestCase} {reason : String}
    (h : BatchRefusedLate b s botId processKey cases w reason w')
    (hkey : Text.isBlankText processKey = false) : ¬ b.NamesJobs := by
  obtain ⟨done, c, rest, report, v, -, -, hrefused⟩ := h
  cases hrefused with
  | blankKey blank calls =>
    rw [blank] at hkey
    cases hkey
  | blankId key nameless calls => exact nameless

/-- With a blank process key the input is staged all the same, and only then is the case refused. -/
theorem runCase_of_blank (hblank : Text.isBlankText processKey = true)
    (htold : w.now + s.deadline ≤ w.last)
    (hstaged : (b.serve (.setAsset (stagedInput botId c)) w.now w.state).answer = .ok ()) :
    ∃ w', runCase b s botId processKey c w =
        (.error (.failed (.invalidRequest "processKey is required")), w') ∧
      w'.calls = w.calls ++ [⟨w.now, .setAsset (stagedInput botId c)⟩] := by
  have hstage : Desk.operate b (.setAsset (stagedInput botId c)) w =
      (.ok (), (Session.ask b (.setAsset (stagedInput botId c)) w).2) := by
    rw [Desk.operate_of_no_problem (problem?_stagedInput botId c), ← hstaged]
    rfl
  have hproblem : Desk.problem? (.startJob (request processKey c)) =
      some "processKey is required" := if_pos hblank
  exact ⟨_, runCase_of_unstarted htold hstage (congrFun (Desk.operate_of_problem hproblem b) _),
    Session.calls_ask b (.setAsset (stagedInput botId c)) w⟩

theorem runBatch_of_blank (cases : List TestCase) (hblank : Text.isBlankText processKey = true)
    (htold : w.now + s.deadline ≤ w.last)
    (hstaged : (b.serve (.setAsset (stagedInput botId c)) w.now w.state).answer = .ok ()) :
    ∃ w', runBatch b s botId processKey (c :: cases) w =
        (.error (.failed (.invalidRequest "processKey is required")), w') ∧
      w'.calls = w.calls ++ [⟨w.now, .setAsset (stagedInput botId c)⟩] := by
  obtain ⟨w', hcase, hcalls⟩ := runCase_of_blank hblank htold hstaged
  exact ⟨w', (congrFun (runBatch_cons ..) w).trans (bind_of_error hcase _), hcalls⟩

end Trial

theorem Failure.message_eq_invalid {f : Failure} {reason : String}
    (h : f.message = (Failure.invalidRequest reason).message) : f = .invalidRequest reason := by
  cases f with
  | invalidRequest reason' => rw [(String.append_right_inj "Invalid request: ").mp h]
  | _ =>
    have hletters := congrArg String.toList h
    unfold message at hletters
    simp at hletters

namespace CommandLine

open Time (nanosPerSecond)

/-- None of some messages is that of an invalid request, by its first letter. -/
def Plain (trouble : Trouble) : Prop := ∀ line ∈ trouble, line.toList.head? ≠ some 'I'

theorem Plain.not_mem {trouble : Trouble} (h : Plain trouble) (reason : String) :
    (Failure.invalidRequest reason).message ∉ trouble := by
  intro hmem
  apply h _ hmem
  unfold Failure.message
  simp

theorem plain_ended (json : Bool) (wait : Nat) (ending : Ending) :
    Plain (ended json wait ending).trouble := by
  cases ending <;> simp [Plain, ended]

theorem plain_reported (json simulated : Bool) (botId : String) (r : Trial.Report) :
    Plain (reported json simulated botId r).trouble := by
  simp only [Plain, reported]
  split
  · simp
  · -- The only line begins with a count, and so with a digit.
    intro line hline h
    rw [List.mem_singleton.mp hline] at h
    simp only [String.toList_append, Nat.toList_repr, List.append_assoc] at h
    cases hdigits : Nat.toDigits 10 (r.summary.fail + r.summary.error) with
    | nil => exact absurd hdigits Nat.toDigits_ne_nil
    | cons d ds =>
      rw [hdigits] at h
      have hd := Nat.isDigit_of_mem_toDigits (by decide) (by decide) (hdigits ▸ List.mem_cons_self)
      rw [Option.some.inj h] at hd
      exact absurd hd (by decide)

/-- Work is told to be invalid only if it fails so. -/
theorem finish_invalid {α : Type} {work : Work σ α} {context : List String} {before : List Print}
    {after : α → Showing} (hcontext : Plain context) (hafter : ∀ v, Plain (after v).trouble)
    {w w' : World σ} {showing : Showing} {reason : String}
    (h : finish work context before after w = (showing, w'))
    (hmem : (Failure.invalidRequest reason).message ∈ showing.trouble) :
    work w = (.error (.failed (.invalidRequest reason)), w') := by
  unfold finish at h
  split at h
  · cases h
    exact absurd hmem ((hafter _).not_mem reason)
  · rename_i f v hwork
    cases h
    rcases List.mem_append.mp hmem with hmem | hmem
    · exact absurd hmem (hcontext.not_mem reason)
    · rw [Failure.message_eq_invalid (List.mem_singleton.mp hmem).symm] at hwork
      exact hwork
  · cases h
    cases hmem

/-- Waiting for a job is told to be invalid only after a blank id. -/
theorem waitFor_invalid (hb : b.NeverInvalid) {json : Bool} {wait : Nat} {job : JobRecord}
    {w w' : World σ} {showing : Showing} {reason : String}
    (h : waitFor b json wait job w = (showing, w'))
    (hmem : (Failure.invalidRequest reason).message ∈ showing.trouble) :
    reason = "jobId is required" ∧ (b.NamesJobs → Text.isBlankText job.jobId = true) ∧
      ∃ visits, w'.calls = w.calls ++ visits := by
  have hfails := finish_invalid (by simp [Plain]) (plain_ended json wait) h hmem
  rcases Nat.lt_or_ge w.last (w.now + wait * nanosPerSecond) with huntold | htold
  · rw [awaitEnd_of_lt huntold] at hfails
    cases hfails
  have hconcludes := Polling.concludes_of_untilTerminal ((awaitEnd_of_le htold).symm.trans hfails)
  rcases hconcludes.error with hanswers | ⟨hreason, hblank⟩
  · exact absurd hanswers (hb reason)
  · obtain ⟨visits, hcalls, -⟩ := hconcludes.calls_eq
    exact ⟨Failure.invalidRequest.inj hreason, hblank, visits, hcalls⟩

/-- A command is refused after calls: it runs tests, or has started a job and waits for it. -/
inductive RefusedLate (b : Backend σ) (w : World σ) : Task → String → World σ → Prop where
  | batch {botId processKey reason : String} {cases : List TestCase} {deadline : Nat} {w' : World σ}
      (refused : Trial.BatchRefusedLate b { deadline := deadline * nanosPerSecond } botId processKey
        cases w reason w') :
      RefusedLate b w (.runTests botId processKey cases deadline) reason w'
  | wait {request : JobRequest} {wait : Nat} {rest : List Visit} {w' : World σ}
      (nameless : ¬ b.NamesJobs)
      (calls : w'.calls = w.calls ++ ⟨w.now, .startJob request⟩ :: rest) :
      RefusedLate b w (.startJob request (some wait)) "jobId is required" w'

theorem startTask_invalid (hb : b.NeverInvalid) {json : Bool} {request : JobRequest}
    {wait : Option Nat} {w w' : World σ} {showing : Showing} {reason : String}
    (h : startTask b json request wait w = (showing, w'))
    (hmem : (Failure.invalidRequest reason).message ∈ showing.trouble) :
    w' = w ∨ RefusedLate b w (.startJob request wait) reason w' := by
  unfold startTask at h
  split at h
  · rename_i f v hstart
    cases h
    rcases List.mem_cons.mp hmem with hcontext | hmem
    · exact absurd (List.mem_singleton.mpr hcontext) (Plain.not_mem (by simp [Plain]) reason)
    · rw [Failure.message_eq_invalid (List.mem_singleton.mp hmem).symm] at hstart
      have hrefused : Desk.operate b (.startJob request) w = _ := hstart
      exact .inl (Desk.operate_invalid hb hrefused)
  · rename_i job v hstart
    have hstarted : Desk.operate b (.startJob request) w = (.ok job, v) := hstart
    cases wait with
    | none =>
      cases h
      cases hmem
    | some wait =>
      obtain ⟨rfl, hblank, visits, hcalls⟩ := waitFor_invalid hb h hmem
      have hnameless : ¬ b.NamesJobs := by
        intro hnames
        have hnamed := hnames.start _ _ _ _ (Desk.operate_ok hstarted).2
        rw [hblank hnames] at hnamed
        cases hnamed
      rw [(Desk.visit_of_operate_ok hstarted).1, List.append_assoc] at hcalls
      exact .inr (.wait hnameless hcalls)

/-- A command that is told to be invalid has done nothing, or is refused after calls. -/
theorem perform_invalid (hb : b.NeverInvalid) {json : Bool} {task : Task} {w w' : World σ}
    {showing : Showing} {reason : String} (h : task.perform b json w = (showing, w'))
    (hmem : (Failure.invalidRequest reason).message ∈ showing.trouble) :
    w' = w ∨ RefusedLate b w task reason w' := by
  -- A command of one operation fails as that operation does.
  have single (call : Call) {context : List String} {after : call.Answer → Showing}
      (hcontext : Plain context) (hafter : ∀ v, Plain (after v).trouble)
      (h : finish (liftM (Desk.operate b call)) context [] after w = (showing, w')) : w' = w :=
    Desk.operate_invalid hb (Work.of_lift_failed (finish_invalid hcontext hafter h hmem))
  -- What is printed afterwards, in either form, is no trouble.
  have quiet (shown : Showing) (shown' : Showing) (hshown : shown.trouble = [])
      (hshown' : shown'.trouble = []) : Plain (if json then shown else shown').trouble := by
    cases json <;> simp [Plain, hshown, hshown']
  cases task with
  | startJob request wait => exact startTask_invalid hb h hmem
  | getJob jobId => exact .inl (single (.getJob jobId) (by simp [Plain]) (by simp [Plain]) h)
  | listJobs filter =>
    exact .inl (single (.listJobs filter) (by simp [Plain]) (fun _ => quiet _ _ rfl rfl) h)
  | getAsset name =>
    exact .inl (single (.getAsset name) (by simp [Plain]) (fun _ => quiet _ _ rfl rfl) h)
  | setAsset asset =>
    exact .inl (single (.setAsset asset) (by simp [Plain]) (fun _ => quiet _ _ rfl rfl) h)
  | runTests botId processKey cases deadline =>
    have hfails := finish_invalid (by simp [Plain]) (plain_reported json b.simulated botId) h hmem
    exact .inr (.batch (Trial.runBatch_invalid hb hfails))
  | health =>
    change healthTask b json w = _ at h
    unfold healthTask at h
    split at h
    · cases h
      cases hmem
    · rename_i f v hhealth
      cases h
      rw [Failure.message_eq_invalid (List.mem_singleton.mp hmem).symm] at hhealth
      exact .inl (Desk.operate_invalid hb (show Desk.operate b .health w = _ from hhealth))

/-- With an orchestrator that names its jobs, only a batch with a blank process key is refused
late. -/
theorem RefusedLate.of_namesJobs (hb : b.NamesJobs) {w w' : World σ} {task : Task} {reason : String}
    (h : RefusedLate b w task reason w') :
    ∃ botId processKey c cases deadline, task = .runTests botId processKey (c :: cases) deadline ∧
      Text.isBlankText processKey = true ∧
      w'.calls = w.calls ++ [⟨w.now, .setAsset (Trial.stagedInput botId c)⟩] := by
  cases h with
  | wait nameless calls => exact absurd hb nameless
  | @batch botId processKey reason cases deadline w' refused =>
    cases hblank : Text.isBlankText processKey with
    | false => exact absurd hb (refused.nameless hblank)
    | true =>
      obtain ⟨c, rest, rfl, -, hcalls⟩ := refused.of_blank hblank
      exact ⟨botId, processKey, c, rest, deadline, rfl, hblank, hcalls⟩

end CommandLine

/-- What has happened when a request is invalid, and the orchestrator never calls it so.  An
operation has made no call.  A case or a batch has always made calls.  A command has done nothing,
or is one that runs tests or waits for a job.  A batch with a blank process key is refused so
whenever its first deadline can be told and its first input can be staged; and if all jobs have ids,
there is no other such batch or command. -/
theorem nothing_done_or_refused_late (hb : b.NeverInvalid) (w : World σ) :
    (∀ call reason w', Desk.operate b call w = (.error (.invalidRequest reason), w') → w' = w) ∧
    (∀ s botId processKey c reason w',
      Trial.runCase b s botId processKey c w = (.error (.failed (.invalidRequest reason)), w') →
      Trial.RefusedLate b botId processKey c w reason w') ∧
    (∀ s botId processKey cases reason w',
      Trial.runBatch b s botId processKey cases w =
        (.error (.failed (.invalidRequest reason)), w') →
      Trial.BatchRefusedLate b s botId processKey cases w reason w') ∧
    (∀ json task reason showing w', CommandLine.Task.perform b json task w = (showing, w') →
      (Failure.invalidRequest reason).message ∈ showing.trouble →
      w' = w ∨ CommandLine.RefusedLate b w task reason w') ∧
    (∀ s botId processKey c cases, Text.isBlankText processKey = true →
      w.now + s.deadline ≤ w.last →
      (b.serve (.setAsset (Trial.stagedInput botId c)) w.now w.state).answer = .ok () →
      ∃ w', Trial.runBatch b s botId processKey (c :: cases) w =
          (.error (.failed (.invalidRequest "processKey is required")), w') ∧
        w'.calls = w.calls ++ [⟨w.now, .setAsset (Trial.stagedInput botId c)⟩]) ∧
    (b.NamesJobs →
      (∀ s botId processKey cases reason w',
        Trial.BatchRefusedLate b s botId processKey cases w reason w' →
        Text.isBlankText processKey = true) ∧
      ∀ task reason w', CommandLine.RefusedLate b w task reason w' →
        ∃ botId processKey c cases deadline,
          task = .runTests botId processKey (c :: cases) deadline ∧
          Text.isBlankText processKey = true ∧
          w'.calls = w.calls ++ [⟨w.now, .setAsset (Trial.stagedInput botId c)⟩]) := by
  refine ⟨?_, ?_, ?_, ?_, ?_, ?_⟩
  · intro call reason w' h
    exact Desk.operate_invalid hb h
  · intro s botId processKey c reason w' h
    exact Trial.runCase_invalid hb h
  · intro s botId processKey cases reason w' h
    exact Trial.runBatch_invalid hb h
  · intro json task reason showing w' h hmem
    exact CommandLine.perform_invalid hb h hmem
  · intro s botId processKey c cases hblank htold hstaged
    exact Trial.runBatch_of_blank cases hblank htold hstaged
  · intro hnames
    refine ⟨fun s botId processKey cases reason w' h => ?_, fun task reason w' h => ?_⟩
    · cases hblank : Text.isBlankText processKey with
      | false => exact absurd hnames (h.nameless hblank)
      | true => rfl
    · exact h.of_namesJobs hnames

/-- The simulation is told of an input before a batch with a blank process key is refused. -/
theorem batch_refused_late_in_simulation :
    let b := Simulation.orchestrator fun _ => .successful 10
    let opened : Time.Timestamp := ⟨20000, 0, 0⟩
    let w : World Simulation.State :=
      { state := Simulation.fresh 50 3600 (.running opened), opened := opened }
    b.NeverInvalid ∧ b.NamesJobs ∧ ∃ w', Trial.runBatch b {} "B" " " [{ caseId := "T" }] w =
        (.error (.failed (.invalidRequest "processKey is required")), w') ∧
      w'.calls = [⟨0, .setAsset (Trial.stagedInput "B" { caseId := "T" })⟩] := by
  intro b opened w
  have hb : b.NeverInvalid := Simulation.neverInvalid_orchestrator _
  obtain ⟨-, -, -, -, hblank, -⟩ := nothing_done_or_refused_late hb w
  exact ⟨hb, Simulation.namesJobs_orchestrator _,
    hblank {} "B" " " { caseId := "T" } [] (by decide) (by decide) rfl⟩

/-- With an orchestrator that calls nothing invalid, a case is refused as invalid after its input
was staged. -/
theorem case_refused_after_staging :
    let b := Simulation.orchestrator fun _ => .successful 10
    let opened : Time.Timestamp := ⟨20000, 0, 0⟩
    let run := Trial.runCase b {} "B" " " { caseId := "T" }
      { state := Simulation.fresh 50 3600 (.running opened), opened := opened }
    b.NeverInvalid ∧ run.1 = .error (.failed (.invalidRequest "processKey is required")) ∧
      run.2.calls = [⟨0, .setAsset ⟨"test_input_B_T", .text, "\x7b\x7d"⟩⟩] := by
  exact ⟨Simulation.neverInvalid_orchestrator _, by rfl, by rfl⟩

end RobotDesk
