import RobotDesk.Polling

/-!
What a session does, as the calls that it makes.

An operation of the desk either is refused, and then makes no call and leaves the world as it was,
or asks the orchestrator once.  Work performs operations with waits between them.  It either
performs all of them with success, or ends with the first that fails, in the world that this one
leaves, or is broken off between two of them.  Polling is such work, and all its calls look jobs up:
first the one it was given, and then each time the one that the last answer was about.
-/
namespace RobotDesk

namespace Desk

variable {σ : Type}

/-- The operation of the desk that makes a call. -/
def operate (b : Backend σ) : (call : Call) → Session σ call.Answer
  | .startJob request => startJob b request
  | .getJob jobId => getJob b jobId
  | .listJobs filter => listJobs b filter
  | .setAsset asset => setAsset b asset
  | .getAsset name => getAsset b name
  | .health => health b

/-- What is wrong with a call that the desk refuses. -/
def problem? : Call → Option String
  | .startJob request =>
    if Text.isBlankText request.processKey then some "processKey is required" else none
  | .getJob jobId => if Text.isBlankText jobId then some "jobId is required" else none
  | .setAsset asset =>
    if asset.name.isEmpty || asset.value.isEmpty then some "name and value are required" else none
  | .getAsset name => if name.isEmpty then some "name is required" else none
  | .listJobs _ | .health => none

theorem problem?_startJob_eq_none_iff (request : JobRequest) :
    problem? (.startJob request) = none ↔ Text.isBlankText request.processKey = false := by
  simp only [problem?]
  cases Text.isBlankText request.processKey <;> simp

theorem problem?_startJob {request : JobRequest} {reason : String}
    (h : problem? (.startJob request) = some reason) :
    Text.isBlankText request.processKey = true ∧ reason = "processKey is required" := by
  simp only [problem?] at h
  split at h
  · exact ⟨‹_›, (Option.some.inj h).symm⟩
  · cases h

theorem problem?_getJob_eq_none_iff (jobId : String) :
    problem? (.getJob jobId) = none ↔ Text.isBlankText jobId = false := by
  simp only [problem?]
  cases Text.isBlankText jobId <;> simp

theorem problem?_getJob {jobId reason : String} (h : problem? (.getJob jobId) = some reason) :
    Text.isBlankText jobId = true ∧ reason = "jobId is required" := by
  simp only [problem?] at h
  split at h
  · exact ⟨‹_›, (Option.some.inj h).symm⟩
  · cases h

theorem require_true (reason : String) {α : Type} (x : Session σ α) :
    (do require true reason; x) = x :=
  funext fun _ => bind_of_ok rfl _

theorem require_false (reason : String) {α : Type} (x : Session σ α) :
    (do require false reason; x) = Session.fail (.invalidRequest reason) :=
  funext fun _ => bind_of_error rfl _

/-- An operation is refused if something is wrong with its call, and else asks once. -/
theorem operate_eq (b : Backend σ) (call : Call) : operate b call =
    match problem? call with
    | some reason => Session.fail (.invalidRequest reason)
    | none => Session.ask b call := by
  cases call with
  | startJob request =>
    simp only [operate, startJob, problem?]
    cases Text.isBlankText request.processKey
    · exact require_true _ _
    · exact require_false _ _
  | getJob jobId =>
    simp only [operate, getJob, problem?]
    cases Text.isBlankText jobId
    · exact require_true _ _
    · exact require_false _ _
  | listJobs filter => rfl
  | setAsset asset =>
    simp only [operate, setAsset, problem?]
    cases asset.name.isEmpty <;> cases asset.value.isEmpty
    · exact require_true _ _
    all_goals exact require_false _ _
  | getAsset name =>
    simp only [operate, getAsset, problem?]
    cases name.isEmpty
    · exact require_true _ _
    · exact require_false _ _
  | health => rfl

theorem operate_of_problem {call : Call} {reason : String} (h : problem? call = some reason)
    (b : Backend σ) : operate b call = Session.fail (.invalidRequest reason) := by
  rw [operate_eq, h]

theorem operate_of_no_problem {call : Call} (h : problem? call = none) (b : Backend σ) :
    operate b call = Session.ask b call := by
  rw [operate_eq, h]

/-- An operation is refused, or asks once. -/
theorem operate_cases (b : Backend σ) (call : Call) (w : World σ) :
    (∃ reason, operate b call w = (.error (.invalidRequest reason), w)) ∨
      operate b call w = Session.ask b call w := by
  cases h : problem? call with
  | some reason =>
    rw [operate_of_problem h]
    exact .inl ⟨reason, rfl⟩
  | none =>
    rw [operate_of_no_problem h]
    exact .inr rfl

/-- An operation fails because it is refused, or because the orchestrator answers so. -/
theorem operate_error {b : Backend σ} {call : Call} {w v : World σ} {f : Failure}
    (h : operate b call w = (.error f, v)) :
    (∃ reason, problem? call = some reason ∧ f = .invalidRequest reason ∧ v = w) ∨
      problem? call = none ∧ (b.serve call w.now w.state).answer = .error f := by
  cases hp : problem? call with
  | some reason =>
    rw [operate_of_problem hp] at h
    cases h
    exact .inl ⟨reason, rfl, rfl, rfl⟩
  | none =>
    rw [operate_of_no_problem hp] at h
    exact .inr ⟨rfl, congrArg Prod.fst h⟩

/-- An operation that succeeds was not refused, and gives what the orchestrator answers. -/
theorem operate_ok {b : Backend σ} {call : Call} {w v : World σ} {answer : call.Answer}
    (h : operate b call w = (.ok answer, v)) :
    problem? call = none ∧ (b.serve call w.now w.state).answer = .ok answer := by
  cases hp : problem? call with
  | some reason =>
    rw [operate_of_problem hp] at h
    cases h
  | none =>
    rw [operate_of_no_problem hp] at h
    exact ⟨rfl, congrArg Prod.fst h⟩

/-- An operation that succeeds leaves the orchestrator as its call does. -/
theorem state_of_operate_ok {b : Backend σ} {call : Call} {w v : World σ} {answer : call.Answer}
    (h : operate b call w = (.ok answer, v)) : v.state = (b.serve call w.now w.state).state := by
  rw [operate_of_no_problem (operate_ok h).1] at h
  obtain rfl : (Session.ask b call w).2 = v := congrArg Prod.snd h
  rfl

/-- An operation that succeeds has made its call. -/
theorem visit_of_operate_ok {b : Backend σ} {call : Call} {w v : World σ} {answer : call.Answer}
    (h : operate b call w = (.ok answer, v)) :
    v.calls = w.calls ++ [⟨w.now, call⟩] ∧ w.now ≤ v.now := by
  rcases operate_cases b call w with ⟨reason, hrefused⟩ | hasked
  · rw [hrefused] at h
    cases h
  · have hv : v = (Session.ask b call w).2 := by rw [← hasked, h]
    subst hv
    exact ⟨Session.calls_ask b call w, Nat.le_add_right _ _⟩

/-- An operation that fails has made its call, or none if it was refused. -/
theorem visit_of_operate_error {b : Backend σ} {call : Call} {w v : World σ} {f : Failure}
    (h : operate b call w = (.error f, v)) :
    v = w ∨ v.calls = w.calls ++ [⟨w.now, call⟩] := by
  rcases operate_cases b call w with ⟨reason, hrefused⟩ | hasked
  · rw [hrefused] at h
    cases h
    exact .inl rfl
  · have hv : v = (Session.ask b call w).2 := by rw [← hasked, h]
    subst hv
    exact .inr (Session.calls_ask b call w)

/-- No operation changes what the clock can tell. -/
theorem last_of_operate {b : Backend σ} {call : Call} {w v : World σ}
    {answer : Except Failure call.Answer} (h : operate b call w = (answer, v)) :
    v.last = w.last := by
  rcases operate_cases b call w with ⟨reason, hrefused⟩ | hasked
  · obtain rfl : w = v := congrArg Prod.snd (hrefused.symm.trans h)
    rfl
  · obtain rfl : (Session.ask b call w).2 = v := congrArg Prod.snd (hasked.symm.trans h)
    rfl

end Desk

variable {σ : Type} {b : Backend σ}

/-- Operations are performed with success, with waits between them, and make these calls. -/
inductive Performs (b : Backend σ) : World σ → List Visit → World σ → Prop where
  | done (w : World σ) : Performs b w [] w
  | wait {w w' : World σ} {visits : List Visit} (time : Nat)
      (rest : Performs b (w.wait time) visits w') : Performs b w visits w'
  | call {w v w' : World σ} {visits : List Visit} {call : Call} {answer : call.Answer}
      (success : Desk.operate b call w = (.ok answer, v)) (rest : Performs b v visits w') :
      Performs b w (⟨w.now, call⟩ :: visits) w'

namespace Performs

variable {w v w' : World σ} {visits visits' : List Visit}

theorem append (h : Performs b w visits v) (h' : Performs b v visits' w') :
    Performs b w (visits ++ visits') w' := by
  induction h with
  | done w => exact h'
  | wait time rest ih => exact .wait time (ih h')
  | call success rest ih => exact .call success (ih h')

theorem calls_eq (h : Performs b w visits w') : w'.calls = w.calls ++ visits := by
  induction h with
  | done w => simp
  | wait time rest ih => exact ih
  | call success rest ih =>
    rw [ih, (Desk.visit_of_operate_ok success).1]
    simp

theorem now_le (h : Performs b w visits w') : w.now ≤ w'.now := by
  induction h with
  | done w => exact Nat.le_refl _
  | wait time rest ih => exact Nat.le_trans (Nat.le_max_left _ _) ih
  | call success rest ih => exact Nat.le_trans (Desk.visit_of_operate_ok success).2 ih

/-- The calls are made between the beginning and the end. -/
theorem time_mem (h : Performs b w visits w') :
    ∀ visit ∈ visits, w.now ≤ visit.time ∧ visit.time ≤ w'.now := by
  induction h with
  | done w =>
    intro visit hv
    cases hv
  | wait time rest ih =>
    intro visit hv
    exact ⟨Nat.le_trans (Nat.le_max_left _ _) (ih visit hv).1, (ih visit hv).2⟩
  | call success rest ih =>
    have hnow := (Desk.visit_of_operate_ok success).2
    intro visit hv
    rcases List.mem_cons.mp hv with rfl | hv
    · exact ⟨Nat.le_refl _, Nat.le_trans hnow rest.now_le⟩
    · exact ⟨Nat.le_trans hnow (ih visit hv).1, (ih visit hv).2⟩

end Performs

/-- After operations that succeed, an operation fails. -/
inductive Breaks (b : Backend σ) (w : World σ) (visits : List Visit) (call : Call) (f : Failure)
    (w' : World σ) : Prop where
  | intro {v : World σ} (before : Performs b w visits v)
      (failure : Desk.operate b call v = (.error f, w'))

namespace Breaks

variable {w v w' : World σ} {visits visits' : List Visit} {call : Call} {f : Failure}

theorem after (h : Performs b w visits v) (h' : Breaks b v visits' call f w') :
    Breaks b w (visits ++ visits') call f w' := by
  obtain ⟨before, failure⟩ := h'
  exact ⟨h.append before, failure⟩

/-- The operation that fails makes the last call, or none. -/
theorem calls_eq (h : Breaks b w visits call f w') :
    ∃ last, w'.calls = w.calls ++ (visits ++ last) ∧
      (last = [] ∨ last.map Visit.call = [call]) := by
  obtain @⟨v, before, failure⟩ := h
  rcases Desk.visit_of_operate_error failure with rfl | hcalls
  · exact ⟨[], by rw [before.calls_eq, List.append_nil], .inl rfl⟩
  · refine ⟨[⟨v.now, call⟩], ?_, .inr rfl⟩
    rw [hcalls, before.calls_eq, List.append_assoc]

end Breaks

namespace Polling

section Turns

variable {interval deadline polls : Nat} {job : JobRecord} {w : World σ}

theorem ending?_eq_none_iff {now : Nat} :
    ending? deadline now job = none ↔ job.status.isTerminal = false ∧ now < deadline := by
  rw [ending?]
  cases job.status.isTerminal <;> simp

theorem ending?_eq_some {now : Nat} {ending : Ending}
    (h : ending? deadline now job = some ending) :
    ending = .finished job ∧ job.status.isTerminal = true ∨
      ending = .timedOut job ∧ job.status.isTerminal = false ∧ deadline ≤ now := by
  rw [ending?] at h
  cases hjob : job.status.isTerminal with
  | true =>
    rw [if_pos hjob] at h
    exact .inl ⟨(Option.some.inj h).symm, rfl⟩
  | false =>
    rw [if_neg (by simp [hjob])] at h
    split at h
    · exact .inr ⟨(Option.some.inj h).symm, rfl, ‹_›⟩
    · cases h

theorem pollAtMost_of_ending {ending : Ending} (h : ending? deadline w.now job = some ending) :
    pollAtMost b interval deadline polls job w = (.ok ending, w) := by
  cases polls <;> rw [pollAtMost, bind_of_ok (x := Work.now) (w := w) rfl, h] <;> rfl

theorem pollAtMost_zero (h : ending? deadline w.now job = none) :
    pollAtMost b interval deadline 0 job w = (.error .unsettled, w) := by
  rw [pollAtMost, bind_of_ok (x := Work.now) (w := w) rfl, h]
  rfl

theorem pollAtMost_succ (h : ending? deadline w.now job = none) :
    pollAtMost b interval deadline (polls + 1) job w =
      (poll b interval deadline job >>= pollAtMost b interval deadline polls) w := by
  rw [pollAtMost, bind_of_ok (x := Work.now) (w := w) rfl, h]

theorem poll_of_le (told : w.now + interval ≤ w.last) : poll b interval deadline job w =
    (liftM (Desk.getJob b job.jobId) : Work σ _) (w.wait (min (w.now + interval) deadline)) := by
  rw [poll, bind_of_ok (Work.later_of_le told),
    bind_of_ok (x := Work.sleepUntil _) (w := w) rfl]

theorem poll_of_lt (untold : w.last < w.now + interval) :
    poll b interval deadline job w = (.error .overflow, w) :=
  bind_of_error (Work.later_of_lt untold) _

end Turns

/-- A job is watched: as long as the last record is of a job that has not ended, and it is early,
the desk waits and then asks for the id in that record.  The list holds the records that are
answered. -/
inductive Watch (b : Backend σ) (interval deadline : Nat) :
    World σ → JobRecord → List JobRecord → World σ → Prop where
  | done (w : World σ) (job : JobRecord) : Watch b interval deadline w job [] w
  | poll {w v w' : World σ} {job next : JobRecord} {answers : List JobRecord}
      (unfinished : job.status.isTerminal = false) (early : w.now < deadline)
      (told : w.now + interval ≤ w.last)
      (lookup : Desk.operate b (.getJob job.jobId) (w.wait (min (w.now + interval) deadline)) =
        (.ok next, v))
      (rest : Watch b interval deadline v next answers w') :
      Watch b interval deadline w job (next :: answers) w'

/-- What watching a job can come to, when at most a number of polls is made. -/
inductive Concludes (b : Backend σ) (interval deadline polls : Nat) (job : JobRecord)
    (w : World σ) : Except Stop Ending × World σ → Prop where
  | finished {answers : List JobRecord} {w' : World σ}
      (watch : Watch b interval deadline w job answers w')
      (terminal : (answers.getLastD job).status.isTerminal = true) :
      Concludes b interval deadline polls job w (.ok (.finished (answers.getLastD job)), w')
  | timedOut {answers : List JobRecord} {w' : World σ}
      (watch : Watch b interval deadline w job answers w')
      (unfinished : (answers.getLastD job).status.isTerminal = false)
      (expired : deadline ≤ w'.now) :
      Concludes b interval deadline polls job w (.ok (.timedOut (answers.getLastD job)), w')
  | failed {answers : List JobRecord} {v w' : World σ} {f : Failure}
      (watch : Watch b interval deadline w job answers v)
      (unfinished : (answers.getLastD job).status.isTerminal = false) (early : v.now < deadline)
      (told : v.now + interval ≤ v.last)
      (failure : Desk.operate b (.getJob (answers.getLastD job).jobId)
        (v.wait (min (v.now + interval) deadline)) = (.error f, w')) :
      Concludes b interval deadline polls job w (.error (.failed f), w')
  | overflow {answers : List JobRecord} {w' : World σ}
      (watch : Watch b interval deadline w job answers w')
      (unfinished : (answers.getLastD job).status.isTerminal = false) (early : w'.now < deadline)
      (untold : w'.last < w'.now + interval) :
      Concludes b interval deadline polls job w (.error .overflow, w')
  | unsettled {answers : List JobRecord} {w' : World σ}
      (watch : Watch b interval deadline w job answers w')
      (unfinished : (answers.getLastD job).status.isTerminal = false) (early : w'.now < deadline)
      (used : answers.length = polls) :
      Concludes b interval deadline polls job w (.error .unsettled, w')

/-- One more poll before the others. -/
theorem Concludes.poll {interval deadline polls : Nat} {job next : JobRecord} {w v : World σ}
    {result : Except Stop Ending × World σ} (unfinished : job.status.isTerminal = false)
    (early : w.now < deadline) (told : w.now + interval ≤ w.last)
    (lookup : Desk.operate b (.getJob job.jobId) (w.wait (min (w.now + interval) deadline)) =
      (.ok next, v))
    (h : Concludes b interval deadline polls next v result) :
    Concludes b interval deadline (polls + 1) job w result := by
  have hlast (answers : List JobRecord) :
      (next :: answers).getLastD job = answers.getLastD next := List.getLastD_cons
  have hwatch {answers : List JobRecord} {w' : World σ}
      (watch : Watch b interval deadline v next answers w') :=
    Watch.poll unfinished early told lookup watch
  cases h with
  | finished watch terminal =>
    rw [← hlast] at terminal ⊢
    exact .finished (hwatch watch) terminal
  | timedOut watch unfinished' expired =>
    rw [← hlast] at unfinished' ⊢
    exact .timedOut (hwatch watch) unfinished' expired
  | failed watch unfinished' early' told' failure =>
    rw [← hlast] at unfinished' failure
    exact .failed (hwatch watch) unfinished' early' told' failure
  | overflow watch unfinished' early' untold =>
    rw [← hlast] at unfinished'
    exact .overflow (hwatch watch) unfinished' early' untold
  | unsettled watch unfinished' early' used =>
    rw [← hlast] at unfinished'
    exact .unsettled (hwatch watch) unfinished' early' (congrArg (· + 1) used)

theorem Concludes.of_ending {interval deadline polls : Nat} {job : JobRecord} {w : World σ}
    {ending : Ending} (h : ending? deadline w.now job = some ending) :
    Concludes b interval deadline polls job w (.ok ending, w) := by
  obtain ⟨rfl, terminal⟩ | ⟨rfl, unfinished, expired⟩ := ending?_eq_some h
  · exact .finished (.done w job) terminal
  · exact .timedOut (.done w job) unfinished expired

theorem pollAtMost_concludes (b : Backend σ) (interval deadline polls : Nat) (job : JobRecord)
    (w : World σ) : Concludes b interval deadline polls job w
      (pollAtMost b interval deadline polls job w) := by
  induction polls generalizing job w with
  | zero =>
    cases hending : ending? deadline w.now job with
    | some ending =>
      rw [pollAtMost_of_ending hending]
      exact .of_ending hending
    | none =>
      obtain ⟨unfinished, early⟩ := ending?_eq_none_iff.mp hending
      rw [pollAtMost_zero hending]
      exact .unsettled (.done w job) unfinished early rfl
  | succ polls ih =>
    cases hending : ending? deadline w.now job with
    | some ending =>
      rw [pollAtMost_of_ending hending]
      exact .of_ending hending
    | none =>
      obtain ⟨unfinished, early⟩ := ending?_eq_none_iff.mp hending
      rw [pollAtMost_succ hending]
      rcases Nat.lt_or_ge w.last (w.now + interval) with untold | told
      · rw [bind_of_error (poll_of_lt untold)]
        exact .overflow (.done w job) unfinished early untold
      cases lookup : Desk.operate b (.getJob job.jobId)
          (w.wait (min (w.now + interval) deadline)) with
      | mk answer v =>
        cases answer with
        | error f =>
          rw [bind_of_error ((poll_of_le told).trans (Work.lift_of_error lookup))]
          exact .failed (.done w job) unfinished early told lookup
        | ok next =>
          rw [bind_of_ok ((poll_of_le told).trans (Work.lift_of_ok lookup))]
          exact .poll unfinished early told lookup (ih next v)

theorem concludes_of_untilTerminal {b : Backend σ} {interval patience deadline : Nat}
    {job : JobRecord} {w : World σ} {result : Except Stop Ending × World σ}
    (h : untilTerminal b interval patience deadline job w = result) :
    Concludes b interval deadline (deadline - w.now + patience) job w result := by
  rw [← h]
  exact pollAtMost_concludes b interval deadline _ job w

/-- Each poll asks for the id in the record before it. -/
theorem Watch.performs {interval deadline : Nat} {job : JobRecord} {answers : List JobRecord}
    {w w' : World σ} (h : Watch b interval deadline w job answers w') :
    ∃ visits, Performs b w visits w' ∧
      visits.map Visit.call = (job :: answers).dropLast.map fun r => .getJob r.jobId := by
  induction h with
  | done w job => exact ⟨[], .done w, rfl⟩
  | poll unfinished early told lookup rest ih =>
    obtain ⟨visits, hperforms, hcalls⟩ := ih
    refine ⟨_, .wait _ (.call lookup hperforms), ?_⟩
    rw [List.map_cons, hcalls, List.dropLast_cons_cons, List.map_cons]

/-- All calls look jobs up. -/
def Lookups (visits : List Visit) : Prop :=
  ∃ ids : List String, visits.map Visit.call = ids.map .getJob

theorem Watch.lookups {interval deadline : Nat} {job : JobRecord} {answers : List JobRecord}
    {w w' : World σ} (h : Watch b interval deadline w job answers w') :
    ∃ visits, Performs b w visits w' ∧ Lookups visits := by
  obtain ⟨visits, hperforms, hcalls⟩ := h.performs
  refine ⟨visits, hperforms, (job :: answers).dropLast.map (·.jobId), ?_⟩
  rw [hcalls, List.map_map]
  rfl

namespace Concludes

variable {interval deadline polls : Nat} {job : JobRecord} {w w' : World σ}

theorem performs {ending : Ending}
    (h : Concludes b interval deadline polls job w (.ok ending, w')) :
    ∃ visits, Performs b w visits w' ∧ Lookups visits := by
  cases h with
  | finished watch terminal => exact watch.lookups
  | timedOut watch unfinished expired => exact watch.lookups

theorem breaks {f : Failure}
    (h : Concludes b interval deadline polls job w (.error (.failed f), w')) :
    ∃ visits jobId, Breaks b w visits (.getJob jobId) f w' ∧ Lookups visits := by
  cases h with
  | failed watch unfinished early told failure =>
    obtain ⟨visits, hperforms, hlookups⟩ := watch.lookups
    refine ⟨visits, _, ⟨?_, failure⟩, hlookups⟩
    rw [← List.append_nil visits]
    exact hperforms.append (.wait _ (.done _))

/-- Whatever polling comes to, it makes no other calls. -/
theorem calls_eq {result : Except Stop Ending × World σ}
    (h : Concludes b interval deadline polls job w result) :
    ∃ visits, result.2.calls = w.calls ++ visits ∧ Lookups visits := by
  have hwatched {answers : List JobRecord} {w' : World σ}
      (watch : Watch b interval deadline w job answers w') :
      ∃ visits, w'.calls = w.calls ++ visits ∧ Lookups visits := by
    obtain ⟨visits, hperforms, hlookups⟩ := watch.lookups
    exact ⟨visits, hperforms.calls_eq, hlookups⟩
  cases h with
  | finished watch => exact hwatched watch
  | timedOut watch => exact hwatched watch
  | overflow watch => exact hwatched watch
  | unsettled watch => exact hwatched watch
  | @failed answers v w' f watch unfinished early told failure =>
    obtain ⟨visits, hcalls, ids, hids⟩ := hwatched watch
    rcases Desk.visit_of_operate_error failure with rfl | hlast
    · exact ⟨visits, hcalls, ids, hids⟩
    · refine ⟨_, by rw [hlast, World.calls_wait, hcalls, List.append_assoc],
        ids ++ [(answers.getLastD job).jobId], ?_⟩
      rw [List.map_append, hids, List.map_append]
      rfl

end Concludes

end Polling
end RobotDesk
