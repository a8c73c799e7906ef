import RobotDesk.Proofs.InvalidRequest
import RobotDesk.Proofs.Registry

/-!
Batches in the simulation.

A simulated job ends five seconds after its creation.  Its case looks it up at the multiples of the
poll interval and, at last, at the deadline, until it has ended.  The registry keeps it all the
while, since its lifetime is longer than the deadline.  So the time that a case takes depends on the
settings alone, and what is found on the settings and the outcome of the job: never a mismatch,
whatever the case gives as input and expects as output.

A case has to tell its deadline and, before each lookup, the time one poll interval ahead, which may
be later than the deadline.  The latest of these times depends on the settings alone, too; if the
clock cannot tell it, the batch is broken off.
-/
namespace RobotDesk.Simulation

open Time

/-- The first multiple of a step from a number on. -/
def roundUp (step n : Nat) : Nat := (n + step - 1) / step * step

theorem roundUp_le {step n e : Nat} (hstep : 0 < step) (hdvd : step ∣ e) (hle : n ≤ e) :
    roundUp step n ≤ e := by
  obtain ⟨k, rfl⟩ := hdvd
  have hdiv : (n + step - 1) / step < k + 1 := by
    rw [Nat.div_lt_iff_lt_mul hstep, Nat.add_mul, Nat.mul_comm k]
    omega
  rw [roundUp, Nat.mul_comm]
  exact Nat.mul_le_mul_left step (Nat.le_of_lt_succ hdiv)

theorem add_le_roundUp {step n e : Nat} (hstep : 0 < step) (hdvd : step ∣ e) (hlt : e < n) :
    e + step ≤ roundUp step n := by
  obtain ⟨k, rfl⟩ := hdvd
  have hdiv : k + 1 ≤ (n + step - 1) / step := by
    rw [Nat.le_div_iff_mul_le hstep, Nat.add_mul, Nat.mul_comm k]
    omega
  rw [roundUp, Nat.mul_comm _ step, ← Nat.mul_succ]
  exact Nat.mul_le_mul_left step hdiv

theorem roundUp_mono (step : Nat) {m n : Nat} (h : m ≤ n) : roundUp step m ≤ roundUp step n :=
  Nat.mul_le_mul_right step (Nat.div_le_div_right (by omega))

/-- How long a simulated job takes, in nanoseconds. -/
def jobTime : Nat := 5 * nanosPerSecond

/-- How long a case takes in the simulation: until the first lookup that finds its job ended, or
until the deadline. -/
def caseTime (s : Trial.Settings) : Nat :=
  if s.deadline < jobTime then s.deadline else min (roundUp s.interval jobTime) s.deadline

/-- The latest time since its beginning that a case has to tell: its deadline, or one poll interval
after the last lookup that is not the last one. -/
def caseHorizon (s : Trial.Settings) : Nat :=
  max s.deadline (roundUp s.interval (min s.deadline jobTime))

theorem caseTime_le (s : Trial.Settings) : caseTime s ≤ s.deadline := by
  unfold caseTime
  split
  · exact Nat.le_refl _
  · exact Nat.min_le_right _ _

/-- The times since the beginning of a case at which its job is looked up. -/
structure Scheduled (s : Trial.Settings) (elapsed : Nat) : Prop where
  le : elapsed ≤ caseTime s
  turn : s.interval ∣ elapsed ∨ elapsed = s.deadline

namespace Scheduled

variable {s : Trial.Settings} {elapsed : Nat}

theorem start (s : Trial.Settings) : Scheduled s 0 := ⟨Nat.zero_le _, .inl (Nat.dvd_zero _)⟩

/-- While the job has not ended and the deadline has not come, one more lookup is due. -/
theorem next (hs : 0 < s.interval) (h : Scheduled s elapsed) (hjob : elapsed < jobTime)
    (hearly : elapsed < s.deadline) : Scheduled s (min (elapsed + s.interval) s.deadline) := by
  have hdvd : s.interval ∣ elapsed := h.turn.resolve_right (Nat.ne_of_lt hearly)
  have hround := add_le_roundUp hs hdvd hjob
  constructor
  · unfold caseTime
    split <;> omega
  · rcases Nat.le_total (elapsed + s.interval) s.deadline with hle | hle
    · rw [Nat.min_eq_left hle]
      exact .inl (Nat.dvd_add hdvd (Nat.dvd_refl _))
    · exact .inr (Nat.min_eq_right hle)

/-- The lookup that finds the job ended is the last. -/
theorem eq_of_ended (hs : 0 < s.interval) (h : Scheduled s elapsed) (hjob : jobTime ≤ elapsed) :
    elapsed = caseTime s := by
  have hle := h.le
  have hdeadline := caseTime_le s
  rcases h.turn with hdvd | rfl
  · have hround := roundUp_le hs hdvd hjob
    have htime : caseTime s ≤ roundUp s.interval jobTime := by
      unfold caseTime
      rw [if_neg (by omega)]
      exact Nat.min_le_left _ _
    omega
  · omega

/-- So is the one at the deadline. -/
theorem eq_of_over (h : Scheduled s elapsed) (hover : s.deadline ≤ elapsed) :
    elapsed = caseTime s :=
  Nat.le_antisymm h.le (Nat.le_trans (caseTime_le s) hover)

end Scheduled

theorem jobTime_eq : (jobTime : Int) = milliseconds 5000 := by decide

namespace Job

theorem recordAfter_of_ended (job : Job) {elapsed : Nat} (h : jobTime ≤ elapsed) :
    job.recordAfter elapsed = job.endedRecord := by
  have h₅ : milliseconds 5000 ≤ (elapsed : Int) := jobTime_eq ▸ Int.ofNat_le.mpr h
  have h₂ : milliseconds 2000 ≤ (elapsed : Int) := Int.le_trans (by decide) h₅
  rw [recordAfter, if_neg (Int.not_lt.mpr h₂), if_neg (Int.not_lt.mpr h₅)]

/-- A job has ended when five seconds have passed since its creation. -/
theorem isTerminal_recordAfter (job : Job) (elapsed : Nat) :
    (job.recordAfter elapsed).status.isTerminal = decide (jobTime ≤ elapsed) := by
  by_cases h : jobTime ≤ elapsed
  · rw [recordAfter_of_ended job h, endedRecord]
    cases job.outcome <;> simp [JobStatus.isTerminal, h]
  · have h₅ : (elapsed : Int) < milliseconds 5000 :=
      jobTime_eq ▸ Int.ofNat_lt.mpr (Nat.not_le.mp h)
    unfold recordAfter
    rw [if_pos h₅]
    split <;> simp [pendingRecord, runningRecord, JobStatus.isTerminal, h]

end Job

/-- What is found of a job with an outcome when the time for its case is given. -/
def Outcome.finding (deadline : Nat) (outcome : Outcome) : Trial.Finding :=
  if deadline < jobTime then
    ⟨.error, "", some ("timeout: job did not finish within " ++
      (deadline / nanosPerSecond).repr ++ " seconds")⟩
  else match outcome with
    | .successful n =>
      ⟨.pass, "\x7b\"processedCount\":" ++ n.repr ++ ",\"result\":\"OK\"\x7d", none⟩
    | .faulted => ⟨.error, "Error in step 3", some "job faulted: Error in step 3"⟩

theorem render_output (n : Nat) :
    (Members.ofPairs [("processedCount", .nat n), ("result", .string "OK")]).toJson.render =
      "\x7b\"processedCount\":" ++ n.repr ++ ",\"result\":\"OK\"\x7d" := by
  have houtput : (Members.ofPairs [("processedCount", .nat n), ("result", .string "OK")]).toJson =
      .object [("processedCount", .nat n), ("result", .string "OK")] := rfl
  have hkey : Json.renderString "processedCount" = "\"processedCount\"" := by decide
  have hkey' : Json.renderString "result" = "\"result\"" := by decide
  have hok : Json.renderString "OK" = "\"OK\"" := by decide
  have hnumber : Json.renderNumeral (.int n) = n.repr := by
    rw [Json.renderNumeral, if_neg (by omega), Int.natAbs_natCast]
  simp only [houtput, Json.render, Json.renderMembers, Json.nat, hkey, hkey', hok, hnumber]
  apply String.toList_inj.mp
  simp

theorem looksSuccessful_output (n : Nat) :
    Verdict.looksSuccessful ("\x7b\"processedCount\":" ++ n.repr ++ ",\"result\":\"OK\"\x7d") =
      true := by
  have hmarker : Text.contains ("\x7b\"processedCount\":" ++ n.repr ++ ",\"result\":\"OK\"\x7d")
      "processedCount" = true := by
    have h := Text.occursIn_append ['\x7b', '"'] "processedCount".toList
      ('"' :: ':' :: (n.repr ++ ",\"result\":\"OK\"\x7d").toList)
    simpa [Text.contains] using h
  simp [Verdict.looksSuccessful, Verdict.successMarkers, hmarker]

/-- The output of a job that has succeeded always passes, and a fault is an error. -/
theorem classify_endedRecord (job : Job) {deadline : Nat} (h : ¬ deadline < jobTime)
    (expected : String) : Trial.classify deadline expected (.finished job.endedRecord) =
      job.outcome.finding deadline := by
  unfold Outcome.finding Job.endedRecord
  rw [if_neg h]
  cases job.outcome with
  | faulted => rfl
  | successful n =>
    simp only [Trial.classify, Trial.outputText, render_output, looksSuccessful_output]
    rfl

namespace Clock

/-- Between two times of the session the clock passes as much time as the session does. -/
def KeepsPace (clock : Clock) (first last : Nat) : Prop :=
  ∀ t t' : Nat, first ≤ t → t ≤ t' → t' ≤ last →
    (clock.read t').since (clock.read t) = (t' - t : Nat)

theorem KeepsPace.mono {clock : Clock} {first last first' last' : Nat}
    (h : clock.KeepsPace first last) (hfirst : first ≤ first') (hlast : last' ≤ last) :
    clock.KeepsPace first' last' :=
  fun t t' ht htt' ht' => h t t' (Nat.le_trans hfirst ht) htt' (Nat.le_trans ht' hlast)

/-- A running clock keeps pace as long as it does not stop at the latest timestamp. -/
theorem keepsPace_running {start : Timestamp} (hstart : start.Regular) {first last : Nat}
    (hfirst : (start.add? first).isSome) (hlast : (start.add? last).isSome) :
    (Clock.running start).KeepsPace first last := by
  have hread (t : Nat) (ht : first ≤ t) (ht' : t ≤ last) :
      ((Clock.running start).read t).Regular ∧
        ((Clock.running start).read t).instant = start.instant + t := by
    have hsome := Timestamp.isSome_add?_of_between hstart (Int.ofNat_le.mpr ht)
      (Int.ofNat_le.mpr ht') hfirst hlast
    obtain ⟨u, hu⟩ := Option.isSome_iff_exists.mp hsome
    rw [read, hu]
    exact Timestamp.instant_of_add? hstart hu
  intro t t' ht htt' ht'
  obtain ⟨hr, hi⟩ := hread t ht (Nat.le_trans htt' ht')
  obtain ⟨hr', hi'⟩ := hread t' (Nat.le_trans ht htt') ht'
  rw [Timestamp.since_eq hr' hr, hi, hi']
  change (_ : Int) = ((t' - t : Nat) : Int)
  omega

end Clock

/-- Two worlds with the same settings of the simulation, and the same jobs created. -/
structure SameSetting (w w' : World State) : Prop where
  last : w'.last = w.last
  opened : w'.opened = w.opened
  clock : w'.state.clock = w.state.clock
  lifetime : w'.state.registry.lifetime = w.state.registry.lifetime
  issued : w'.state.issued = w.state.issued

namespace SameSetting

theorem refl (w : World State) : SameSetting w w := ⟨rfl, rfl, rfl, rfl, rfl⟩

theorem trans {w v w' : World State} (h : SameSetting w v) (h' : SameSetting v w') :
    SameSetting w w' :=
  ⟨h'.last.trans h.last, h'.opened.trans h.opened, h'.clock.trans h.clock,
    h'.lifetime.trans h.lifetime, h'.issued.trans h.issued⟩

end SameSetting

/-- A simulation has the job of a case, which was created when the case began, and last read when
some time had passed. -/
structure Holds (s : Trial.Settings) (job : Job) (begun elapsed : Nat) (state : State) : Prop where
  pace : ∀ e ≤ caseTime s, (state.clock.read (begun + e)).since job.createdAt = e
  lifetime : s.deadline < state.registry.lifetime
  found : ∃ kept, state.registry.jobs.find? (·.jobId = job.jobId) = some kept ∧
    kept.origin = job.origin ∧ kept.phase = .due elapsed
  named : Text.isBlankText job.jobId = false

/-- A case waits for its job, and has last read it now.  To come so far it had to tell the first
multiple of the poll interval from now on. -/
structure Awaits (s : Trial.Settings) (job : Job) (begun elapsed : Nat) (w : World State) :
    Prop where
  now : w.now = begun + elapsed
  scheduled : Scheduled s elapsed
  told : begun + roundUp s.interval elapsed ≤ w.last
  holds : Holds s job begun elapsed w.state

variable {outcome : Nat → Outcome} {s : Trial.Settings} {job : Job} {begun elapsed : Nat}
  {w w' : World State}

theorem createdAt_of_origin {kept : Job} (h : kept.origin = job.origin) :
    kept.createdAt = job.createdAt := by
  rw [← Job.createdAt_origin, h, Job.createdAt_origin]

/-- A job that is kept has, some time later, the record for that time. -/
theorem snapshot_of_kept {kept : Job} {now : Timestamp} {later : Nat}
    (horigin : kept.origin = job.origin) (hphase : kept.phase = .due elapsed)
    (hnow : now.since job.createdAt = later) (hle : elapsed ≤ later) :
    (kept.advance now).snapshot = job.recordAfter later ∧
      (kept.advance now).phase = .due later := by
  have hdue : (kept.advance now).phase = .due later := by
    rw [Job.advance, createdAt_of_origin horigin, hnow, hphase]
    exact Phase.later_due_of_le (Int.ofNat_le.mpr hle)
  refine ⟨?_, hdue⟩
  rw [Job.snapshot_eq_recordAfter hdue, ← Job.recordAfter_origin, Job.origin_advance, horigin,
    Job.recordAfter_origin]

/-- The job is still kept later on, and has the record for that time. -/
theorem Holds.get {state : State} {later : Nat} (h : Holds s job begun elapsed state)
    (hle : elapsed ≤ later) (hlater : later ≤ caseTime s) :
    let looked := state.get job.jobId (state.clock.read (begun + later))
    looked.1 = .ok (job.recordAfter later) ∧ Holds s job begun later looked.2 := by
  have hsince := h.pace later hlater
  obtain ⟨kept, hfind, horigin, hphase⟩ := h.found
  obtain ⟨hsnapshot, hphase'⟩ := snapshot_of_kept horigin hphase hsince hle
  have hkeeps : state.registry.keeps (state.clock.read (begun + later)) kept = true := by
    have hdeadline : (later : Int) ≤ s.deadline :=
      Int.ofNat_le.mpr (Nat.le_trans hlater (caseTime_le s))
    rw [Registry.keeps, createdAt_of_origin horigin, hsince]
    exact decide_eq_true (Int.lt_of_le_of_lt hdeadline h.lifetime)
  obtain ⟨hget, hfind'⟩ := Registry.find?_get hfind hkeeps
  refine ⟨?_, h.pace, h.lifetime, ⟨_, hfind', horigin, hphase'⟩, h.named⟩
  rw [State.get_fst, hget, hsnapshot]

/-- One more lookup finds the job as it is by then. -/
theorem Awaits.poll (outcome : Nat → Outcome) (hs : 0 < s.interval)
    (h : Awaits s job begun elapsed w) (hjob : elapsed < jobTime) (hearly : elapsed < s.deadline)
    (htold : w.now + s.interval ≤ w.last) :
    ∃ v, Desk.operate (orchestrator outcome) (.getJob job.jobId)
        (w.wait (min (w.now + s.interval) (begun + s.deadline))) =
          (.ok (job.recordAfter (min (elapsed + s.interval) s.deadline : Nat)), v) ∧
      Awaits s job begun (min (elapsed + s.interval) s.deadline) v ∧ SameSetting w v := by
  have hscheduled := h.scheduled.next hs hjob hearly
  have hle : elapsed ≤ min (elapsed + s.interval) s.deadline := by omega
  have hnow : (w.wait (min (w.now + s.interval) (begun + s.deadline))).now =
      begun + min (elapsed + s.interval) s.deadline := by
    rw [World.now_wait, h.now]
    omega
  have hproblem : Desk.problem? (.getJob job.jobId) = none :=
    (Desk.problem?_getJob_eq_none_iff _).mpr h.holds.named
  have hmultiple : s.interval ∣ elapsed + s.interval :=
    Nat.dvd_add (h.scheduled.turn.resolve_right (Nat.ne_of_lt hearly)) (Nat.dvd_refl _)
  have hround := roundUp_le hs hmultiple (Nat.min_le_left _ s.deadline)
  have htold' : begun + roundUp s.interval (min (elapsed + s.interval) s.deadline) ≤ w.last := by
    rw [h.now] at htold
    omega
  obtain ⟨hanswer, hholds⟩ := h.holds.get hle hscheduled.le
  rw [← hnow] at hanswer hholds
  refine ⟨(Session.ask (orchestrator outcome) (.getJob job.jobId)
    (w.wait (min (w.now + s.interval) (begun + s.deadline)))).2, ?_,
    ⟨hnow, hscheduled, htold', hholds⟩, ⟨rfl, rfl, rfl, rfl, rfl⟩⟩
  rw [Desk.operate_of_no_problem hproblem, ← hanswer]
  rfl

/-- Watching the job leads from one scheduled lookup to another, each at least a nanosecond after
the one before it. -/
theorem Awaits.watch (hs : 0 < s.interval) {record : JobRecord} {answers : List JobRecord}
    (hwatch : Polling.Watch (orchestrator outcome) s.interval (begun + s.deadline) w record answers
      w')
    (h : Awaits s job begun elapsed w) (hrecord : record = job.recordAfter elapsed) :
    ∃ elapsed', Awaits s job begun elapsed' w' ∧
      answers.getLastD record = job.recordAfter elapsed' ∧
      elapsed + answers.length ≤ elapsed' ∧ SameSetting w w' := by
  -- What is kept from lookup to lookup: the record in hand is the one for the time of the last.
  induction hwatch generalizing elapsed with
  | done w record => exact ⟨elapsed, h, hrecord, Nat.le_refl _, .refl w⟩
  | @poll w v w' record next answers unfinished early told lookup rest ih =>
    have hjob : elapsed < jobTime := by
      rw [hrecord, Job.isTerminal_recordAfter] at unfinished
      simpa using unfinished
    have hearly : elapsed < s.deadline := by
      rw [h.now] at early
      omega
    obtain ⟨u, hlookup, hawaits, hsame⟩ := h.poll outcome hs hjob hearly told
    rw [hrecord, Job.jobId_recordAfter] at lookup
    obtain ⟨hnext, rfl⟩ := Prod.mk.inj (hlookup.symm.trans lookup)
    obtain rfl := Except.ok.inj hnext
    obtain ⟨elapsed', hawaits', hlast, htime, hsame'⟩ := ih hawaits rfl
    refine ⟨elapsed', hawaits', ?_, ?_, hsame.trans hsame'⟩
    · rw [← hlast]
      exact List.getLastD_cons
    · rw [List.length_cons]
      omega

/-- The last record that a case sees in the simulation, and whether it is in time. -/
def ending (s : Trial.Settings) (job : Job) : Ending :=
  if s.deadline < jobTime then .timedOut (job.recordAfter s.deadline)
  else .finished job.endedRecord

/-- As long as another lookup is due, the next time to be told is no later than the horizon. -/
theorem Awaits.next_le (hs : 0 < s.interval) (h : Awaits s job begun elapsed w)
    (hjob : elapsed < jobTime) (hearly : elapsed < s.deadline) :
    w.now + s.interval ≤ begun + caseHorizon s := by
  have hdvd := h.scheduled.turn.resolve_right (Nat.ne_of_lt hearly)
  have hround := add_le_roundUp hs hdvd (Nat.lt_min.mpr ⟨hearly, hjob⟩)
  have hnow := h.now
  unfold caseHorizon
  omega

/-- Once no other lookup is due, the horizon has been told. -/
theorem Awaits.horizon_le (h : Awaits s job begun elapsed w) (hdue : begun + s.deadline ≤ w.last)
    (hend : min s.deadline jobTime ≤ elapsed) : begun + caseHorizon s ≤ w.last := by
  have htold := h.told
  have hround := roundUp_mono s.interval hend
  unfold caseHorizon
  omega

/-- Polling ends once the time of a case has passed, and is broken off only if the case has to tell
a time that cannot be told. -/
theorem Awaits.concludes (hs : 0 < s.interval) {polls : Nat} {answer : Except Stop Ending}
    (hconcludes : Polling.Concludes (orchestrator outcome) s.interval (begun + s.deadline) polls
      (job.recordAfter elapsed) w (answer, w'))
    (hpolls : begun + s.deadline - w.now ≤ polls) (hdue : begun + s.deadline ≤ w.last)
    (h : Awaits s job begun elapsed w) :
    answer = .ok (ending s job) ∧ w'.now = begun + caseTime s ∧ SameSetting w w' ∧
        begun + caseHorizon s ≤ w.last ∨
      answer = .error .overflow ∧ w.last < begun + caseHorizon s := by
  cases hconcludes with
  | @finished answers _ watch terminal =>
    obtain ⟨elapsed', hawaits, hlast, -, hsame⟩ := h.watch hs watch rfl
    rw [hlast, Job.isTerminal_recordAfter, decide_eq_true_eq] at terminal
    have htime := hawaits.scheduled.eq_of_ended hs terminal
    have hdeadline : ¬ s.deadline < jobTime := by
      have hle := caseTime_le s
      omega
    have htold := hawaits.horizon_le (hsame.last ▸ hdue) (by omega)
    refine .inl ⟨?_, htime ▸ hawaits.now, hsame, hsame.last ▸ htold⟩
    rw [hlast, Job.recordAfter_of_ended job terminal, ending, if_neg hdeadline]
  | @timedOut answers _ watch unfinished expired =>
    obtain ⟨elapsed', hawaits, hlast, -, hsame⟩ := h.watch hs watch rfl
    rw [hlast, Job.isTerminal_recordAfter, decide_eq_false_iff_not] at unfinished
    have hover : s.deadline ≤ elapsed' := by
      have hnow := hawaits.now
      omega
    have htime := hawaits.scheduled.eq_of_over hover
    have hend : elapsed' = s.deadline := by
      have hle := caseTime_le s
      omega
    have htold := hawaits.horizon_le (hsame.last ▸ hdue) (by omega)
    refine .inl ⟨?_, htime ▸ hawaits.now, hsame, hsame.last ▸ htold⟩
    rw [hlast, hend, ending, if_pos (by omega)]
  | @failed answers v _ f watch unfinished early told failure =>
    obtain ⟨elapsed', hawaits, hlast, -, hsame⟩ := h.watch hs watch rfl
    rw [hlast, Job.isTerminal_recordAfter, decide_eq_false_iff_not] at unfinished
    have hearly : elapsed' < s.deadline := by
      rw [hawaits.now] at early
      omega
    obtain ⟨u, hlookup, -, -⟩ := hawaits.poll outcome hs (Nat.not_le.mp unfinished) hearly told
    rw [hlast, Job.jobId_recordAfter, hlookup] at failure
    cases (Prod.mk.inj failure).1
  | @overflow answers _ watch unfinished early untold =>
    obtain ⟨elapsed', hawaits, hlast, -, hsame⟩ := h.watch hs watch rfl
    rw [hlast, Job.isTerminal_recordAfter, decide_eq_false_iff_not] at unfinished
    have hearly : elapsed' < s.deadline := by
      rw [hawaits.now] at early
      omega
    have hnext := hawaits.next_le hs (Nat.not_le.mp unfinished) hearly
    rw [hsame.last] at untold
    exact .inr ⟨rfl, Nat.lt_of_lt_of_le untold hnext⟩
  | @unsettled answers _ watch unfinished early used =>
    -- The polls do not run out before the deadline, since each takes a nanosecond at least.
    obtain ⟨elapsed', hawaits, -, hpassed, -⟩ := h.watch hs watch rfl
    have hnow := h.now
    have hnow' := hawaits.now
    omega

theorem classify_ending (s : Trial.Settings) (job : Job) (expected : String) :
    Trial.classify s.deadline expected (ending s job) = job.outcome.finding s.deadline := by
  by_cases h : s.deadline < jobTime
  · unfold ending Outcome.finding
    rw [if_pos h, if_pos h]
    rfl
  · rw [ending, if_neg h]
    exact classify_endedRecord job h expected

/-- The result of a case in the simulation, for a job with a number and an outcome. -/
def caseResult (s : Trial.Settings) (botId : String) (c : TestCase) (number : Nat)
    (outcome : Outcome) (date : Timestamp) : TestResult where
  jobId := jobId number
  botId := botId
  caseId := c.caseId
  status := (outcome.finding s.deadline).status
  actualOutput := (outcome.finding s.deadline).actual
  expectedOutput := c.expectedOutput
  diffDetail := (outcome.finding s.deadline).detail
  duration := Trial.durationText (caseTime s)
  timestamp := date

/-- The simulation before some cases: its clock keeps pace, and it keeps a job for longer than a
case may take. -/
structure Ready (s : Trial.Settings) (cases : Nat) (w : World State) : Prop where
  pace : w.state.clock.KeepsPace w.now (w.now + cases * caseTime s)
  lifetime : s.deadline < w.state.registry.lifetime

/-- The clock can tell all times that some cases ask for. -/
def InRange (s : Trial.Settings) (cases : Nat) (w : World State) : Prop :=
  ∀ i < cases, w.now + i * caseTime s + caseHorizon s ≤ w.last

instance (s : Trial.Settings) (cases : Nat) (w : World State) : Decidable (InRange s cases w) :=
  inferInstanceAs (Decidable (∀ i < cases, _))

/-- The world after cases: each has taken its time and created one job. -/
structure Passed (s : Trial.Settings) (cases : Nat) (w w' : World State) : Prop where
  now : w'.now = w.now + cases * caseTime s
  last : w'.last = w.last
  opened : w'.opened = w.opened
  clock : w'.state.clock = w.state.clock
  lifetime : w'.state.registry.lifetime = w.state.registry.lifetime
  issued : w'.state.issued = w.state.issued + cases

variable {botId processKey : String}

/-- A simulation has the job that it has just started. -/
theorem holds_started (hready : Ready s 1 w) :
    let number := w.state.issued + 1
    let job := newJob number processKey (w.state.clock.read w.now) (outcome number)
    Holds s job w.now 0 (w.state.start processKey outcome (w.state.clock.read w.now)).2 where
  pace := by
    intro e he
    have hpace := hready.pace w.now (w.now + e) (Nat.le_refl _) (Nat.le_add_right _ _) (by omega)
    rwa [Nat.add_sub_cancel_left] at hpace
  lifetime := Int.lt_of_lt_of_le hready.lifetime
    (Int.le_of_eq (Registry.lifetime_insert _ _ _).symm)
  found := ⟨_, Registry.find?_insert _ _ _, rfl, rfl⟩
  named := isBlankText_jobId _

/-- A case in the simulation.  It is broken off if it has to tell a time that cannot be told. -/
theorem runCase_simulated (outcome : Nat → Outcome) (botId : String) (c : TestCase)
    (hs : 0 < s.interval) (hkey : Text.isBlankText processKey = false) (hready : Ready s 1 w) :
    (w.now + caseHorizon s ≤ w.last ∧
      ∃ w', Trial.runCase (orchestrator outcome) s botId processKey c w =
        (.ok (caseResult s botId c (w.state.issued + 1) (outcome (w.state.issued + 1)) w'.clock),
          w') ∧
      Passed s 1 w w') ∨
    w.last < w.now + caseHorizon s ∧
      ∃ w', Trial.runCase (orchestrator outcome) s botId processKey c w =
        (.error .overflow, w') := by
  rcases Nat.lt_or_ge w.last (w.now + s.deadline) with huntold | htold
  · have hle : s.deadline ≤ caseHorizon s := Nat.le_max_left _ _
    exact .inr ⟨by omega, w, Trial.runCase_of_lt huntold⟩
  let number := w.state.issued + 1
  let job := newJob number processKey (w.state.clock.read w.now) (outcome number)
  let v := w.visit (.setAsset (Trial.stagedInput botId c)) w.state 0
  let u := v.visit (.startJob (Trial.request processKey c))
    (w.state.start processKey outcome (w.state.clock.read w.now)).2 0
  have staged : Desk.operate (orchestrator outcome) (.setAsset (Trial.stagedInput botId c)) w =
      (.ok (), v) := by
    rw [Desk.operate_of_no_problem (Trial.problem?_stagedInput botId c)]
    rfl
  have started : Desk.operate (orchestrator outcome) (.startJob (Trial.request processKey c)) v =
      (.ok job.snapshot, u) := by
    rw [Desk.operate_of_no_problem ((Desk.problem?_startJob_eq_none_iff _).mpr hkey)]
    rfl
  have hbegun : w.now + roundUp s.interval 0 ≤ u.last := by
    have hround := roundUp_le hs (Nat.dvd_zero _) (Nat.le_refl 0)
    change _ ≤ w.last
    omega
  have hawaits : Awaits s job w.now 0 u := ⟨rfl, .start s, hbegun, holds_started hready⟩
  have hsnapshot : job.snapshot = job.recordAfter (0 : Nat) := Job.snapshot_eq_recordAfter rfl
  obtain ⟨answer, w', hpolling, hfollow⟩ := Trial.follow_concludes htold staged started
  have hconcludes := Polling.concludes_of_untilTerminal hpolling
  rw [hsnapshot] at hconcludes
  rcases hawaits.concludes hs hconcludes (Nat.le_add_right _ _) htold with
    ⟨rfl, hnow, hsame, hrange⟩ | ⟨rfl, hrange⟩
  · refine .inl ⟨hrange, w', ?_, ?_⟩
    · have hduration : w'.now - w.now = caseTime s := by omega
      rw [Trial.runCase_eq hfollow]
      simp only [Except.map, Trial.Course.result, classify_ending, hduration]
      rfl
    · exact
        { now := by omega
          last := hsame.last
          opened := hsame.opened
          clock := hsame.clock
          lifetime := hsame.lifetime.trans (Registry.lifetime_insert _ _ _)
          issued := hsame.issued }
  · exact .inr ⟨hrange, w', Trial.runCase_eq hfollow⟩

theorem runCase_inRange (outcome : Nat → Outcome) (botId : String) (c : TestCase)
    (hs : 0 < s.interval) (hkey : Text.isBlankText processKey = false) (hready : Ready s 1 w)
    (hrange : InRange s 1 w) :
    ∃ w', Trial.runCase (orchestrator outcome) s botId processKey c w =
        (.ok (caseResult s botId c (w.state.issued + 1) (outcome (w.state.issued + 1)) w'.clock),
          w') ∧
      Passed s 1 w w' := by
  have htold := hrange 0 Nat.one_pos
  rw [Nat.zero_mul] at htold
  exact ((runCase_simulated outcome botId c hs hkey hready).resolve_right
    fun h => absurd htold (Nat.not_le.mpr h.1)).2

theorem Passed.trans {m n : Nat} {v : World State} (h : Passed s m w v) (h' : Passed s n v w') :
    Passed s (m + n) w w' where
  now := by rw [h'.now, h.now, Nat.add_mul, Nat.add_assoc]
  last := h'.last.trans h.last
  opened := h'.opened.trans h.opened
  clock := h'.clock.trans h.clock
  lifetime := h'.lifetime.trans h.lifetime
  issued := by rw [h'.issued, h.issued, Nat.add_assoc]

namespace Ready

variable {m n : Nat}

theorem first (h : Ready s (m + n) w) : Ready s m w where
  pace := h.pace.mono (Nat.le_refl _)
    (Nat.add_le_add_left (Nat.mul_le_mul_right _ (Nat.le_add_right m n)) _)
  lifetime := h.lifetime

theorem rest (h : Ready s (m + n) w) (hpassed : Passed s m w w') : Ready s n w' where
  pace := by
    rw [hpassed.clock, hpassed.now]
    have hlast : w.now + m * caseTime s + n * caseTime s = w.now + (m + n) * caseTime s := by
      rw [Nat.add_mul, Nat.add_assoc]
    exact h.pace.mono (Nat.le_add_right _ _) (Nat.le_of_eq hlast)
  lifetime := hpassed.lifetime ▸ h.lifetime

end Ready

namespace InRange

variable {m n : Nat}

theorem first (h : InRange s (m + n) w) : InRange s m w :=
  fun i hi => h i (Nat.lt_of_lt_of_le hi (Nat.le_add_right m n))

theorem rest (h : InRange s (m + n) w) (hpassed : Passed s m w w') : InRange s n w' := by
  intro i hi
  have hrange := h (m + i) (Nat.add_lt_add_left hi m)
  rwa [Nat.add_mul, ← Nat.add_assoc, ← hpassed.now, ← hpassed.last] at hrange

/-- Cases are in range if the first is, and the others are after it. -/
theorem cons (hfirst : w.now + caseHorizon s ≤ w.last) (hpassed : Passed s 1 w w')
    (hrest : InRange s n w') : InRange s (1 + n) w := by
  intro i hi
  cases i with
  | zero => rwa [Nat.zero_mul]
  | succ i =>
    have hrange := hrest i (by omega)
    rwa [hpassed.now, hpassed.last, Nat.add_assoc w.now, ← Nat.add_mul, Nat.add_comm 1] at hrange

end InRange

/-- The date and time at a time of the session. -/
def dateAt (w : World State) (time : Nat) : Timestamp :=
  (w.opened.add? time).getD Timestamp.latest

/-- The results of cases in the simulation: the jobs are numbered from the next number on, and each
result is made when the time of a case has passed since the one before it. -/
def caseResults (outcome : Nat → Outcome) (s : Trial.Settings) (botId : String) (w : World State)
    (cases : List TestCase) : List TestResult :=
  cases.mapIdx fun i c =>
    let number := w.state.issued + (i + 1)
    caseResult s botId c number (outcome number) (dateAt w (w.now + (i + 1) * caseTime s))

theorem caseResults_cons (outcome : Nat → Outcome) (botId : String) (c : TestCase)
    (rest : List TestCase) (hpassed : Passed s 1 w w') :
    caseResults outcome s botId w (c :: rest) =
      caseResult s botId c (w.state.issued + 1) (outcome (w.state.issued + 1)) w'.clock ::
        caseResults outcome s botId w' rest := by
  have hdate (time : Nat) : dateAt w time = dateAt w' time := by
    rw [dateAt, dateAt, hpassed.opened]
  unfold caseResults
  rw [List.mapIdx_cons]
  congr 1
  · rw [hdate]
    simp only [Nat.zero_add, ← hpassed.now]
    rfl
  · congr 1
    funext i c
    have hnumber : w.state.issued + (i + 1 + 1) = w'.state.issued + (i + 1) := by
      rw [hpassed.issued]
      omega
    have htime : w.now + (i + 1 + 1) * caseTime s = w'.now + (i + 1) * caseTime s := by
      rw [hpassed.now, Nat.add_comm (i + 1) 1, Nat.add_mul 1 (i + 1), ← Nat.add_assoc]
    simp only [hnumber, htime, hdate]

/-- A batch in the simulation, by induction on its cases. -/
theorem runBatch_simulated (outcome : Nat → Outcome) (botId : String) (hs : 0 < s.interval)
    (hkey : Text.isBlankText processKey = false) {cases : List TestCase}
    (hready : Ready s cases.length w) :
    (InRange s cases.length w ∧
      ∃ report w', Trial.runBatch (orchestrator outcome) s botId processKey cases w =
        (.ok report, w') ∧
      Passed s cases.length w w' ∧ report.results = caseResults outcome s botId w cases) ∨
    ¬ InRange s cases.length w ∧
      ∃ w', Trial.runBatch (orchestrator outcome) s botId processKey cases w =
        (.error .overflow, w') := by
  induction cases generalizing w with
  | nil =>
    refine .inl ⟨fun i hi => absurd hi (Nat.not_lt_zero i), {}, w, rfl, ?_, rfl⟩
    exact ⟨by simp, rfl, rfl, rfl, rfl, rfl⟩
  | cons c rest ih =>
    rw [List.length_cons, Nat.add_comm] at hready ⊢
    rw [Trial.runBatch_cons]
    rcases runCase_simulated outcome botId c hs hkey hready.first with
      ⟨hrange, v, hcase, hfirst⟩ | ⟨huntold, v, hcase⟩
    · rw [bind_of_ok hcase]
      rcases ih (hready.rest hfirst) with
        ⟨hrest, report, w', hbatch, hpassed, hresults⟩ | ⟨hrest, w', hbatch⟩
      · refine .inl ⟨.cons hrange hfirst hrest, _, w', bind_of_ok hbatch _,
          hfirst.trans hpassed, ?_⟩
        rw [caseResults_cons outcome botId c rest hfirst, ← hresults]
        rfl
      · exact .inr ⟨fun h => hrest (h.rest hfirst), w', bind_of_error hbatch _⟩
    · refine .inr ⟨fun h => ?_, v, bind_of_error hcase _⟩
      have htold := h 0 (by omega)
      rw [Nat.zero_mul] at htold
      exact absurd htold (Nat.not_le.mpr huntold)

theorem runBatch_inRange (outcome : Nat → Outcome) (botId : String) (hs : 0 < s.interval)
    (hkey : Text.isBlankText processKey = false) {cases : List TestCase}
    (hready : Ready s cases.length w) (hrange : InRange s cases.length w) :
    ∃ report w', Trial.runBatch (orchestrator outcome) s botId processKey cases w =
        (.ok report, w') ∧
      Passed s cases.length w w' ∧ report.results = caseResults outcome s botId w cases :=
  ((runBatch_simulated outcome botId hs hkey hready).resolve_right fun h => h.1 hrange).2

/-- A batch whose first deadline cannot be told is broken off before its first call. -/
theorem runBatch_of_lt (outcome : Nat → Outcome) (botId processKey : String) {cases : List TestCase}
    (hcases : cases ≠ []) (huntold : w.last < w.now + s.deadline) :
    Trial.runBatch (orchestrator outcome) s botId processKey cases w = (.error .overflow, w) := by
  obtain ⟨c, rest, rfl⟩ := List.exists_cons_of_ne_nil hcases
  exact (congrFun (Trial.runBatch_cons ..) w).trans (bind_of_error (Trial.runCase_of_lt huntold) _)

/-- Else, with a blank process key, it is refused once its first input has been staged. -/
theorem runBatch_refused (outcome : Nat → Outcome) (botId : String) {cases : List TestCase}
    (hblank : Text.isBlankText processKey = true) (hcases : cases ≠ [])
    (htold : w.now + s.deadline ≤ w.last) :
    ∃ w', Trial.runBatch (orchestrator outcome) s botId processKey cases w =
      (.error (.failed (.invalidRequest "processKey is required")), w') := by
  obtain ⟨c, rest, rfl⟩ := List.exists_cons_of_ne_nil hcases
  obtain ⟨w', hrun, -⟩ :=
    Trial.runBatch_of_blank (b := orchestrator outcome) (c := c) rest hblank htold rfl
  exact ⟨w', hrun⟩

theorem status_finding_ne_fail (deadline : Nat) (outcome : Outcome) :
    (outcome.finding deadline).status ≠ .fail := by
  unfold Outcome.finding
  split
  · simp
  · cases outcome <;> simp

/-- A batch in the simulation.  Suppose that nobody else uses it, its clock keeps pace and it keeps
jobs for longer than a case may take.  For a process key that is not blank the batch never fails, if
all times that it asks for can be told; and if one cannot, it is broken off.  Every case takes the
same time and says what the settings and the outcome of its job give: a timeout if there are less
than five seconds for a case, and else a pass or an error as the job ends.  The jobs are numbered in
the order of the cases, and no case is a failure.  A batch that has a case but a blank process key
is refused, unless its first deadline cannot be told. -/
theorem batch_in_simulation (outcome : Nat → Outcome) (s : Trial.Settings)
    (botId processKey : String) (cases : List TestCase) (w : World State) :
    (0 < s.interval → Text.isBlankText processKey = false → Ready s cases.length w →
      (InRange s cases.length w →
        ∃ report w', Trial.runBatch (orchestrator outcome) s botId processKey cases w =
            (.ok report, w') ∧
          report.results = caseResults outcome s botId w cases ∧
          w'.now = w.now + cases.length * caseTime s ∧
          (∀ done c rest, cases = done ++ c :: rest → ∃ before v v',
            Trial.runBatch (orchestrator outcome) s botId processKey done w = (.ok before, v) ∧
            v.state.issued = w.state.issued + done.length ∧
            Trial.runCase (orchestrator outcome) s botId processKey c v =
              (.ok (caseResult s botId c (v.state.issued + 1) (outcome (v.state.issued + 1))
                v'.clock), v') ∧
            v'.now = v.now + caseTime s) ∧
          (w.state.issued = 0 →
            ∀ i r, report.results[i]? = some r → r.jobId = "JOB-" ++ (1000 + (i + 1)).repr) ∧
          (∀ r ∈ report.results, r.status ≠ .fail) ∧ report.summary.fail = 0) ∧
      (¬ InRange s cases.length w →
        ∃ w', Trial.runBatch (orchestrator outcome) s botId processKey cases w =
          (.error .overflow, w'))) ∧
    (Text.isBlankText processKey = true → cases ≠ [] → w.now + s.deadline ≤ w.last →
      ∃ w', Trial.runBatch (orchestrator outcome) s botId processKey cases w =
        (.error (.failed (.invalidRequest "processKey is required")), w')) ∧
    (cases ≠ [] → w.last < w.now + s.deadline →
      Trial.runBatch (orchestrator outcome) s botId processKey cases w =
        (.error .overflow, w)) := by
  refine ⟨fun hs hkey hready => ⟨fun hrange => ?_, fun hrange => ?_⟩,
    runBatch_refused outcome botId, runBatch_of_lt outcome botId processKey⟩
  · obtain ⟨report, w', hrun, hpassed, hresults⟩ :=
      runBatch_inRange outcome botId hs hkey hready hrange
    have hnofail : ∀ r ∈ report.results, r.status ≠ .fail := by
      intro r hr
      rw [hresults] at hr
      obtain ⟨i, hi, rfl⟩ := List.mem_mapIdx.mp hr
      exact status_finding_ne_fail s.deadline _
    refine ⟨report, w', hrun, hresults, hpassed.now, ?_, ?_, hnofail, ?_⟩
    · rintro done c rest rfl
      rw [List.length_append, List.length_cons, Nat.add_comm rest.length] at hready hrange
      obtain ⟨before, v, hbefore, hdone, -⟩ :=
        runBatch_inRange outcome botId hs hkey hready.first hrange.first
      obtain ⟨v', hcase, hpassed'⟩ := runCase_inRange outcome botId c hs hkey
        (hready.rest hdone).first ((hrange.rest hdone).first)
      refine ⟨before, v, v', hbefore, hdone.issued, hcase, ?_⟩
      rw [hpassed'.now, Nat.one_mul]
    · intro hfresh i r hr
      rw [hresults, caseResults, List.getElem?_mapIdx, Option.map_eq_some_iff] at hr
      obtain ⟨c, -, rfl⟩ := hr
      rw [hfresh, Nat.zero_add]
      rfl
    · rw [Trial.summary_of_runBatch_ok hrun]
      apply List.countP_eq_zero.mpr
      intro r hr
      simpa using hnofail r hr
  · exact ((runBatch_simulated outcome botId hs hkey hready).resolve_left fun h => hrange h.1).2

/-- Two cases in a simulation that has room for one job only. -/
theorem batch_in_simulation_of_two :
    let outcome := fun number => if number = 1 then Outcome.successful 12 else .faulted
    let s : Trial.Settings := { interval := 3000000000, deadline := 5500000000 }
    let opened : Timestamp := ⟨20000, 0, 0⟩
    let w : World State := { state := fresh 1 6 (.running opened), opened := opened }
    let cases : List TestCase := [{ caseId := "T1" }, { caseId := "T2" }]
    Ready s cases.length w ∧ InRange s cases.length w ∧ ∃ report w',
      Trial.runBatch (orchestrator outcome) s "B" "P" cases w = (.ok report, w') ∧
        report.results.map (fun r => (r.jobId, r.status, r.actualOutput)) =
          [("JOB-1001", .pass, "\x7b\"processedCount\":12,\"result\":\"OK\"\x7d"),
            ("JOB-1002", .error, "Error in step 3")] ∧
        w'.now = 11000000000 := by
  intro outcome s opened w cases
  have hready : Ready s cases.length w :=
    ⟨Clock.keepsPace_running (by decide) (by decide) (by decide), by decide⟩
  have hrange : InRange s cases.length w := by decide
  obtain ⟨report, w', hrun, hresults, hnow, -⟩ :=
    ((batch_in_simulation outcome s "B" "P" cases w).1 (by decide) (by decide) hready).1 hrange
  refine ⟨hready, hrange, report, w', hrun, ?_, hnow.trans (by decide)⟩
  rw [hresults]
  decide

/-- With a blank process key the batch fails, although the simulation is ready for it. -/
theorem batch_in_simulation_refused :
    let s : Trial.Settings := {}
    let opened : Timestamp := ⟨20000, 0, 0⟩
    let w : World State := { state := fresh 50 3600 (.running opened), opened := opened }
    let cases : List TestCase := [{ caseId := "T" }]
    0 < s.interval ∧ Ready s cases.length w ∧ InRange s cases.length w ∧
      (Trial.runBatch (orchestrator fun _ => .successful 10) s "B" " " cases w).1 =
        .error (.failed (.invalidRequest "processKey is required")) := by
  intro s opened w cases
  have hready : Ready s cases.length w :=
    ⟨Clock.keepsPace_running (by decide) (by decide) (by decide), by decide⟩
  obtain ⟨w', hrun⟩ : ∃ w',
      Trial.runBatch (orchestrator fun _ => .successful 10) s "B" " " cases w =
        (.error (.failed (.invalidRequest "processKey is required")), w') :=
    runBatch_refused _ "B" (by decide) (by decide) (by decide)
  exact ⟨by decide, hready, by decide, congrArg Prod.fst hrun⟩

end RobotDesk.Simulation
