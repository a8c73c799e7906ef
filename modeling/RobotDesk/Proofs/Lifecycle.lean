import RobotDesk.Simulation.Job

/-!
The course of a simulated job.

What is known about a job is fixed by how it was created and by the time that has passed since: it
is pending for two seconds, runs for three, and then has ended as was decided.  This is written down
once more here, without phases, and shown to be what the phases give.  Of two records of one job,
the one for the longer time continues the other.
-/
namespace RobotDesk

/-- How far a job with a status has come. -/
def JobStatus.rank : JobStatus → Nat
  | .pending => 0
  | .running => 1
  | .successful | .faulted | .stopped => 2

/-- A later record of the same job: the status has not gone back, nothing that was set has changed,
and a job that had ended is as it was. -/
structure JobRecord.Continues (earlier later : JobRecord) : Prop where
  jobId : later.jobId = earlier.jobId
  processKey : later.processKey = earlier.processKey
  createdAt : later.createdAt = earlier.createdAt
  status : earlier.status.rank ≤ later.status.rank
  startedAt : ∀ t, earlier.startedAt = some t → later.startedAt = some t
  endedAt : ∀ t, earlier.endedAt = some t → later.endedAt = some t
  ended : earlier.status.isTerminal = true → later = earlier

theorem JobRecord.Continues.refl (r : JobRecord) : r.Continues r where
  jobId := rfl
  processKey := rfl
  createdAt := rfl
  status := Nat.le_refl _
  startedAt := fun _ h => h
  endedAt := fun _ h => h
  ended := fun _ => rfl

namespace Simulation

open Time

namespace Phase

@[simp] theorem pending_later (p : Phase) : Phase.pending.later p = p := by cases p <;> rfl

theorem due_eq_pending {d : Duration} (h : d < milliseconds 2000) : due d = .pending := by
  have hr : ¬ runningAfter ≤ d := Int.not_le.mpr h
  have hf : ¬ finishedAfter ≤ d := fun hd => hr (Int.le_trans (by decide) hd)
  simp [due, hr, hf]

theorem due_eq_running {d : Duration} (h : ¬ d < milliseconds 2000) (h' : d < milliseconds 5000) :
    due d = .running := by
  have hr : runningAfter ≤ d := Int.not_lt.mp h
  have hf : ¬ finishedAfter ≤ d := Int.not_le.mpr h'
  simp [due, hr, hf]

theorem due_eq_finished {d : Duration} (h : ¬ d < milliseconds 5000) : due d = .finished := by
  have hf : finishedAfter ≤ d := Int.not_lt.mp h
  simp [due, hf]

/-- What is due after the longer of two times is not behind what is due after the shorter. -/
theorem later_due_of_le {d e : Duration} (h : d ≤ e) : (due d).later (due e) = due e := by
  have hf : finishedAfter ≤ d → finishedAfter ≤ e := fun hd => Int.le_trans hd h
  have hr : runningAfter ≤ d → runningAfter ≤ e := fun hd => Int.le_trans hd h
  simp only [due]
  grind [later]

theorem later_due (d e : Duration) : (due d).later (due e) = due (max d e) := by
  rcases Int.le_total d e with h | h
  · rw [later_due_of_le h, Int.max_eq_right h]
  · rw [later_comm, later_due_of_le h, Int.max_eq_left h]

/-- The phase of a job that was read when some times had passed, in any order. -/
def reached (elapsed : List Duration) : Phase := elapsed.max?.elim .pending due

theorem later_reached (elapsed : List Duration) (d : Duration) :
    (reached elapsed).later (due d) = reached (elapsed ++ [d]) := by
  cases elapsed with
  | nil => simp [reached]
  | cons e rest =>
    simp only [reached, List.cons_append, List.max?_cons', List.foldl_append, List.foldl_cons,
      List.foldl_nil, Option.elim_some]
    exact later_due _ d

end Phase

namespace Job

/-- A job as it was when it was created. -/
def origin (job : Job) : Job := { job with phase := .pending }

@[simp] theorem number_origin (job : Job) : job.origin.number = job.number := rfl
@[simp] theorem jobId_origin (job : Job) : job.origin.jobId = job.jobId := rfl
@[simp] theorem createdAt_origin (job : Job) : job.origin.createdAt = job.createdAt := rfl
@[simp] theorem origin_advance (job : Job) (now : Timestamp) :
    (job.advance now).origin = job.origin := rfl

/-- The record of a job that is pending. -/
def pendingRecord (job : Job) : JobRecord where
  jobId := job.jobId
  processKey := job.processKey
  status := .pending
  createdAt := job.createdAt
  info := some ("Mock job for " ++ job.processKey)

/-- The record of a job that runs. -/
def runningRecord (job : Job) : JobRecord :=
  { job.pendingRecord with
    status := .running
    startedAt := job.createdAt.add? (milliseconds 2000) }

/-- The record of a job that has ended. -/
def endedRecord (job : Job) : JobRecord :=
  let ended := { job.runningRecord with endedAt := job.createdAt.add? (milliseconds 5000) }
  match job.outcome with
  | .successful n =>
    { ended with
      status := .successful
      outputArguments :=
        some (.ofPairs [("processedCount", .nat n), ("result", .string "OK")]) }
  | .faulted =>
    { ended with
      status := .faulted
      outputArguments := some (.ofPairs [("result", .string "Error in step 3")])
      info := some "Error in step 3" }

/-- The record of a job some time after its creation.  It does not depend on the phase. -/
def recordAfter (job : Job) (elapsed : Duration) : JobRecord :=
  if elapsed < milliseconds 2000 then job.pendingRecord
  else if elapsed < milliseconds 5000 then job.runningRecord
  else job.endedRecord

@[simp] theorem recordAfter_origin (job : Job) (elapsed : Duration) :
    job.origin.recordAfter elapsed = job.recordAfter elapsed := rfl

@[simp] theorem jobId_endedRecord (job : Job) : job.endedRecord.jobId = job.jobId := by
  unfold endedRecord
  cases job.outcome <;> rfl

@[simp] theorem jobId_recordAfter (job : Job) (elapsed : Duration) :
    (job.recordAfter elapsed).jobId = job.jobId := by
  unfold recordAfter
  split
  · rfl
  split
  · rfl
  · exact jobId_endedRecord job

theorem snapshot_of_pending {job : Job} (h : job.phase = .pending) :
    job.snapshot = job.pendingRecord := by
  simp [snapshot, pendingRecord, status, startedAt, endedAt, output, info, h]

theorem snapshot_of_running {job : Job} (h : job.phase = .running) :
    job.snapshot = job.runningRecord := by
  simp [snapshot, runningRecord, pendingRecord, status, startedAt, endedAt, output, info,
    runningAfter, h]

theorem snapshot_of_finished {job : Job} (h : job.phase = .finished) :
    job.snapshot = job.endedRecord := by
  cases ho : job.outcome <;>
    simp [snapshot, endedRecord, runningRecord, pendingRecord, status, startedAt, endedAt, output,
      info, runningAfter, finishedAfter, faultMessage, h, ho]

/-- A job in the phase that is due has the record for the time that has passed. -/
theorem snapshot_eq_recordAfter {job : Job} {elapsed : Duration} (h : job.phase = .due elapsed) :
    job.snapshot = job.recordAfter elapsed := by
  unfold recordAfter
  split
  · rename_i h₂
    exact snapshot_of_pending (h.trans (Phase.due_eq_pending h₂))
  split
  · rename_i h₂ h₅
    exact snapshot_of_running (h.trans (Phase.due_eq_running h₂ h₅))
  · rename_i h₅
    exact snapshot_of_finished (h.trans (Phase.due_eq_finished h₅))

theorem continues_endedRecord (job : Job) {r : JobRecord}
    (h : r = job.pendingRecord ∨ r = job.runningRecord) : r.Continues job.endedRecord := by
  unfold endedRecord
  rcases h with rfl | rfl <;> cases job.outcome <;>
    constructor <;> simp [runningRecord, pendingRecord, JobStatus.rank, JobStatus.isTerminal]

theorem continues_runningRecord (job : Job) : job.pendingRecord.Continues job.runningRecord := by
  constructor <;> simp [runningRecord, pendingRecord, JobStatus.rank, JobStatus.isTerminal]

/-- A record for a longer time continues the one for a shorter time. -/
theorem continues_recordAfter (job : Job) {d e : Duration} (h : d ≤ e) :
    (job.recordAfter d).Continues (job.recordAfter e) := by
  have h₂ : e < milliseconds 2000 → d < milliseconds 2000 := fun he => Int.lt_of_le_of_lt h he
  have h₅ : e < milliseconds 5000 → d < milliseconds 5000 := fun he => Int.lt_of_le_of_lt h he
  unfold recordAfter
  by_cases hd₂ : d < milliseconds 2000
  · rw [if_pos hd₂]
    split
    · exact .refl _
    split
    · exact continues_runningRecord job
    · exact continues_endedRecord job (.inl rfl)
  rw [if_neg hd₂, if_neg fun he => hd₂ (h₂ he)]
  by_cases hd₅ : d < milliseconds 5000
  · rw [if_pos hd₅]
    split
    · exact .refl _
    · exact continues_endedRecord job (.inr rfl)
  · rw [if_neg hd₅, if_neg fun he => hd₅ (h₅ he)]
    exact .refl _

end Job
end Simulation
end RobotDesk
