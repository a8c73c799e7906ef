import RobotDesk.Proofs.Batch
import RobotDesk.Proofs.Registry
import RobotDesk.Script

/-!
Which job a test result is about.

The result of a case has the id of the job that was started for it.  What it says comes from the
last record that was answered.  The first lookup asks for the id of the started job, and each
further one for the id in the answer before it.  So the lookups and the result are about the started
job exactly when every answer carries its id, which is so for an orchestrator that answers with the
job it is asked for, such as the simulation.  Another orchestrator can lead the desk to another job.
-/
namespace RobotDesk

/-- The id that a call looks up. -/
def Call.lookup? : Call → Option String
  | .getJob jobId => some jobId
  | _ => none

/-- The ids that calls look up, in their order. -/
def lookedUp (visits : List Visit) : List String := visits.filterMap (·.call.lookup?)

@[simp] theorem lookedUp_append (xs ys : List Visit) :
    lookedUp (xs ++ ys) = lookedUp xs ++ lookedUp ys := List.filterMap_append

theorem lookedUp_of_calls {visits : List Visit} {records : List JobRecord}
    (h : visits.map Visit.call = records.map fun r => .getJob r.jobId) :
    lookedUp visits = records.map (·.jobId) := by
  have hmap : lookedUp visits = (visits.map Visit.call).filterMap Call.lookup? := by
    rw [List.filterMap_map]
    rfl
  rw [hmap, h, List.filterMap_map]
  exact congrFun List.filterMap_eq_map records

/-- An orchestrator that answers a lookup with the job it is asked for. -/
def Backend.Faithful {σ : Type} (b : Backend σ) : Prop :=
  ∀ jobId now state r, (b.serve (.getJob jobId) now state).answer = .ok r → r.jobId = jobId

/-- The simulation finds a job under its own id only. -/
theorem Simulation.faithful_orchestrator (outcome : Nat → Outcome) :
    (orchestrator outcome).Faithful := by
  intro jobId now s r h
  change (s.get jobId (s.clock.read now)).1 = .ok r at h
  rw [State.get_fst, Registry.get_fst] at h
  cases hfind : (s.registry.expire (s.clock.read now)).jobs.find? (·.jobId = jobId) with
  | none =>
    rw [hfind] at h
    cases h
  | some job =>
    rw [hfind] at h
    cases h
    have hid : job.jobId = jobId := by simpa using List.find?_some hfind
    exact hid

variable {σ : Type} {b : Backend σ}

/-- With faithful answers the desk stays with the job that it began to watch. -/
theorem Polling.Watch.jobId_eq (hb : b.Faithful) {interval deadline : Nat} {job : JobRecord}
    {answers : List JobRecord} {w w' : World σ}
    (h : Watch b interval deadline w job answers w') : ∀ a ∈ answers, a.jobId = job.jobId := by
  induction h with
  | done w job =>
    intro a ha
    cases ha
  | @poll w v w' job next answers unfinished early told lookup rest ih =>
    have hnext : next.jobId = job.jobId := hb _ _ _ _ (Desk.operate_ok lookup).2
    intro a ha
    rcases List.mem_cons.mp ha with rfl | ha
    · exact hnext
    · rw [ih a ha, hnext]

namespace Trial

/-- A case whose job has been started, and is watched from then on.  The list holds the records that
are answered to the lookups. -/
inductive Pursuit (b : Backend σ) (s : Settings) (botId processKey : String) (c : TestCase)
    (w : World σ) : JobRecord → List JobRecord → World σ → Prop where
  | intro {job : JobRecord} {answers : List JobRecord} {v u x : World σ}
      (staged : Desk.operate b (.setAsset (stagedInput botId c)) w = (.ok (), v))
      (started : Desk.operate b (.startJob (request processKey c)) v = (.ok job, u))
      (watch : Polling.Watch b s.interval (w.now + s.deadline) u job answers x) :
      Pursuit b s botId processKey c w job answers x

namespace Pursuit

variable {s : Settings} {botId processKey : String} {c : TestCase} {w x : World σ}
  {job : JobRecord} {answers : List JobRecord}

/-- The first lookup asks for the started job, and each further one for the id answered last. -/
theorem lookedUp_eq (h : Pursuit b s botId processKey c w job answers x) :
    ∃ visits, x.calls = w.calls ++ visits ∧
      lookedUp visits = (job :: answers).dropLast.map (·.jobId) := by
  obtain ⟨staged, started, watch⟩ := h
  obtain ⟨visits, hperforms, hcalls⟩ := watch.performs
  have hall := Performs.call staged (.call started hperforms)
  refine ⟨_, hall.calls_eq, ?_⟩
  rw [← lookedUp_of_calls hcalls]
  rfl

theorem jobId_eq (hb : b.Faithful) (h : Pursuit b s botId processKey c w job answers x) :
    ∀ a ∈ answers, a.jobId = job.jobId := by
  obtain ⟨staged, started, watch⟩ := h
  exact watch.jobId_eq hb

end Pursuit

/-- A case ends before a job is started for it, or with a result made from the last answer, or with
a lookup that fails, or between two lookups. -/
theorem runCase_pursuit (b : Backend σ) (s : Settings) (botId processKey : String) (c : TestCase)
    (w : World σ) :
    (∃ stop w' visits, runCase b s botId processKey c w = (.error stop, w') ∧
      w'.calls = w.calls ++ visits ∧ lookedUp visits = []) ∨
    ∃ job answers x, Pursuit b s botId processKey c w job answers x ∧
      ((∃ ending, ending.job = answers.getLastD job ∧
        runCase b s botId processKey c w =
          (.ok (Course.result ⟨w.now, job, ending⟩ s botId c x.now x.clock), x)) ∨
      (∃ stop w' last, runCase b s botId processKey c w = (.error stop, w') ∧
        w'.calls = x.calls ++ last ∧
        (last = [] ∨ lookedUp last = [(answers.getLastD job).jobId]))) := by
  have hfollowed := follow_followed b s botId processKey c w
  cases hrun : follow b s botId processKey c w with
  | mk answer w' =>
  rw [hrun] at hfollowed
  rw [runCase_eq hrun]
  cases hfollowed with
  | undated untold => exact .inl ⟨_, _, [], rfl, (List.append_nil _).symm, rfl⟩
  | unstaged told failure =>
    rcases Desk.visit_of_operate_error failure with rfl | hcalls
    · exact .inl ⟨_, _, [], rfl, (List.append_nil _).symm, rfl⟩
    · exact .inl ⟨_, _, _, rfl, hcalls, rfl⟩
  | unstarted told staged failure =>
    have hstaged := (Desk.visit_of_operate_ok staged).1
    rcases Desk.visit_of_operate_error failure with rfl | hcalls
    · exact .inl ⟨_, _, _, rfl, hstaged, rfl⟩
    · rw [hstaged, List.append_assoc] at hcalls
      exact .inl ⟨_, _, _, rfl, hcalls, rfl⟩
  | @watched _ job v u _ told staged started hpoll =>
    cases Polling.concludes_of_untilTerminal hpoll with
    | finished watch terminal =>
      exact .inr ⟨_, _, _, .intro staged started watch, .inl ⟨_, rfl, rfl⟩⟩
    | timedOut watch unfinished expired =>
      exact .inr ⟨_, _, _, .intro staged started watch, .inl ⟨_, rfl, rfl⟩⟩
    | failed watch unfinished early told' failure =>
      refine .inr ⟨_, _, _, .intro staged started watch, .inr ?_⟩
      rcases Desk.visit_of_operate_error failure with rfl | hcalls
      · exact ⟨_, _, [], rfl, (List.append_nil _).symm, .inl rfl⟩
      · exact ⟨_, _, _, rfl, hcalls, .inr rfl⟩
    | overflow watch unfinished early untold =>
      exact .inr ⟨_, _, _, .intro staged started watch, .inr ⟨_, _, [], rfl,
        (List.append_nil _).symm, .inl rfl⟩⟩
    | unsettled watch unfinished early used =>
      exact .inr ⟨_, _, _, .intro staged started watch, .inr ⟨_, _, [], rfl,
        (List.append_nil _).symm, .inl rfl⟩⟩

/-- The records seen, up to the last and the last. -/
theorem dropLast_concat_getLastD (job : JobRecord) (answers : List JobRecord) :
    (job :: answers).dropLast ++ [answers.getLastD job] = job :: answers := by
  rw [← List.getLast_eq_getLastD (List.cons_ne_nil job answers)]
  exact List.dropLast_concat_getLast _

theorem about_one_job_iff (job : JobRecord) (answers : List JobRecord) :
    (∀ id ∈ (job :: answers).dropLast.map (·.jobId), id = job.jobId) ∧
      (answers.getLastD job).jobId = job.jobId ↔ ∀ a ∈ answers, a.jobId = job.jobId := by
  have hseen : (∀ a ∈ (job :: answers).dropLast ++ [answers.getLastD job], a.jobId = job.jobId) ↔
      ∀ a ∈ answers, a.jobId = job.jobId := by
    rw [dropLast_concat_getLastD]
    simp
  rw [← hseen, List.forall_mem_append, List.forall_mem_map, List.forall_mem_singleton]

/-- A case, for any orchestrator.  Either no job is started for it, and it ends without a lookup.
Or the lookups ask for the ids of the started job and of the answers, one after the other; its
result has the id of the started job, and says what the last record seen comes to.  The lookups and
that record are then about the started job exactly when all answers are.  Faithful answers are. -/
theorem case_about_started_job_iff (b : Backend σ) (s : Settings) (botId processKey : String)
    (c : TestCase) (w : World σ) :
    let run := runCase b s botId processKey c w
    ∃ visits, run.2.calls = w.calls ++ visits ∧
      ((lookedUp visits = [] ∧ ∃ stop, run.1 = .error stop) ∨
      ∃ job answers x, Pursuit b s botId processKey c w job answers x ∧
        lookedUp visits <+: (job :: answers).map (·.jobId) ∧
        (∀ r, run.1 = .ok r → run.2 = x ∧ r.jobId = job.jobId ∧
          ∃ ending, ending.job = answers.getLastD job ∧
            r.status = (classify s.deadline c.expectedOutput ending).status ∧
            r.actualOutput = (classify s.deadline c.expectedOutput ending).actual ∧
            ((∀ id ∈ lookedUp visits, id = job.jobId) ∧ ending.job.jobId = r.jobId ↔
              ∀ a ∈ answers, a.jobId = job.jobId)) ∧
        (b.Faithful → (∀ id ∈ lookedUp visits, id = job.jobId) ∧
          (answers.getLastD job).jobId = job.jobId)) := by
  intro run
  rcases runCase_pursuit b s botId processKey c w with
    ⟨stop, w', visits, hrun, hcalls, hnone⟩ |
    ⟨job, answers, x, hpursuit, ⟨ending, hlast, hrun⟩ | ⟨stop, w', last, hrun, hcalls, hasked⟩⟩
  · rw [show run = _ from hrun]
    exact ⟨visits, hcalls, .inl ⟨hnone, stop, rfl⟩⟩
  · obtain ⟨visits, hcalls, hids⟩ := hpursuit.lookedUp_eq
    have hiff := about_one_job_iff job answers
    rw [← hids] at hiff
    rw [show run = _ from hrun]
    refine ⟨visits, hcalls, .inr ⟨job, answers, x, hpursuit, ?_, ?_,
      fun hb => hiff.mpr (hpursuit.jobId_eq hb)⟩⟩
    · rw [hids]
      exact (List.dropLast_prefix _).map _
    · intro r hr
      obtain rfl := Except.ok.inj hr
      refine ⟨rfl, rfl, ending, hlast, rfl, rfl, ?_⟩
      rw [hlast]
      exact hiff
  · obtain ⟨visits, hbefore, hids⟩ := hpursuit.lookedUp_eq
    rw [hbefore, List.append_assoc] at hcalls
    have hchain : lookedUp (visits ++ last) <+: (job :: answers).map (·.jobId) := by
      rw [lookedUp_append, hids]
      rcases hasked with rfl | hasked
      · rw [show lookedUp [] = [] from rfl, List.append_nil]
        exact (List.dropLast_prefix _).map _
      · have hwhole := congrArg (List.map (·.jobId)) (dropLast_concat_getLastD job answers)
        rw [List.map_append, List.map_singleton] at hwhole
        exact ⟨[], by rw [List.append_nil, hasked, hwhole]⟩
    rw [show run = _ from hrun]
    refine ⟨visits ++ last, hcalls, .inr ⟨job, answers, x, hpursuit, hchain, ?_, ?_⟩⟩
    · intro r hr
      cases hr
    · intro hb
      have hall := hpursuit.jobId_eq hb
      refine ⟨fun id hid => ?_, ((about_one_job_iff job answers).mpr hall).2⟩
      obtain ⟨a, ha, rfl⟩ := List.mem_map.mp (hchain.subset hid)
      rcases List.mem_cons.mp ha with rfl | ha
      · rfl
      · exact hall a ha

/-- The answers lead from the started job `J-1` over `J-2` to `J-3`, whose success the result then
reports under the id `J-1`. -/
theorem case_led_astray :
    let record := fun id status output =>
      JobRecord.mk id "P" status ⟨20000, 0, 0⟩ none none output none
    let script : Script :=
      { start := [.ok (record "J-1" .pending none)]
        get := [.ok (record "J-2" .running none),
          .ok (record "J-3" .successful (some (.ofPairs [("result", .string "OK")])))] }
    let run := runCase (Script.orchestrator true 0) {} "B" "P" { caseId := "T" }
      { state := script, opened := ⟨20000, 0, 0⟩ }
    lookedUp run.2.calls = ["J-1", "J-2"] ∧
      run.1.toOption.map (fun r => (r.jobId, r.status, r.actualOutput)) =
        some ("J-1", .pass, "\x7b\"result\":\"OK\"\x7d") := by
  decide

end Trial
end RobotDesk
