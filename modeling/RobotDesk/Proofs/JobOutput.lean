import RobotDesk.Proofs.Instant
import RobotDesk.Proofs.Observation
import RobotDesk.Proofs.Received

/-!
The output and the times of a job, by its status.

A job that waits or runs has no output, and one that ended by itself has at least an empty one.
Both orchestrators keep to this: the real one since the output of a row is taken only as its status
allows, whatever was received; the simulated one since it makes up the output when a job ends.  The
simulation also sets each time exactly when the job comes that far, in their order.
-/
namespace RobotDesk

open Time

/-- The output is there as the status says; a job that was stopped may have one or not. -/
structure JobRecord.OutputFits (r : JobRecord) : Prop where
  unfinished : r.status = .pending ∨ r.status = .running → r.outputArguments = none
  finished : r.status = .successful ∨ r.status = .faulted → r.outputArguments.isSome = true

/-- The times are there as the status says, and follow one another. -/
structure JobRecord.TimesFit (r : JobRecord) : Prop where
  started : r.startedAt.isSome = true ↔ r.status ≠ .pending
  ended : r.endedAt.isSome = true ↔ r.status.isTerminal = true
  created_started : ∀ t, r.startedAt = some t → r.createdAt.before t = true
  started_ended : ∀ t u, r.startedAt = some t → r.endedAt = some u → t.before u = true

/-- The records of jobs in the answer to a call. -/
def Call.records : (call : Call) → call.Answer → List JobRecord
  | .startJob _, r | .getJob _, r => [r]
  | .listJobs _, rs => rs
  | .setAsset _, _ | .getAsset _, _ | .health, _ => []

section Received

open Orchestrator OData Wire

theorem outputIn_unfinished {status : JobStatus} (h : status = .pending ∨ status = .running)
    (output : Option Members) : outputIn status output = none := by
  rcases h with rfl | rfl <;> rfl

theorem outputIn_finished {status : JobStatus} (h : status = .successful ∨ status = .faulted)
    (output : Option Members) : (outputIn status output).isSome = true := by
  rcases h with rfl | rfl <;> rfl

/-- The record of a row, however the columns of the row are filled. -/
theorem OData.JobRow.record?_outputFits {row : JobRow} {processKey : Option String} {r : JobRecord}
    (h : row.record? processKey = .ok r) : r.OutputFits := by
  obtain ⟨-, -, output, houtput⟩ := JobRow.record?_eq_ok h
  constructor
  · intro hs
    rw [houtput, outputIn_unfinished hs]
  · intro hs
    rw [houtput, outputIn_finished hs]

/-- Every record that a response is understood to hold is that of a row. -/
theorem row_of_interpret {call : Call} {response : Response} {answer : call.Answer}
    (h : interpret call response = .ok answer) :
    ∀ r ∈ call.records answer, ∃ (row : JobRow) (processKey : Option String),
      row.record? processKey = .ok r := by
  intro r hr
  cases call with
  | startJob request =>
    obtain rfl := List.mem_singleton.mp hr
    obtain ⟨-, -, h⟩ := ok_of_bind h
    obtain ⟨data, -, h⟩ := ok_of_bind h
    obtain ⟨row, -, h⟩ := ok_of_bind h
    split at h
    · rename_i row' _
      exact ⟨row', _, h⟩
    · cases h
  | getJob jobId =>
    obtain rfl := List.mem_singleton.mp hr
    obtain ⟨-, -, h⟩ := ok_of_bind h
    obtain ⟨row, -, h⟩ := ok_of_bind h
    exact ⟨row, none, h⟩
  | listJobs f =>
    obtain ⟨-, -, h⟩ := ok_of_bind h
    obtain ⟨rows, -, h⟩ := ok_of_bind h
    cases h
    obtain ⟨row, -, hrow⟩ := List.mem_filterMap.mp hr
    cases hrecord : row.record? f.processKey with
    | error e => simp [hrecord, Except.toOption] at hrow
    | ok record =>
      simp only [hrecord, Except.toOption, Option.some.injEq] at hrow
      exact ⟨row, f.processKey, hrow ▸ hrecord⟩
  | setAsset asset => cases hr
  | getAsset name => cases hr
  | health => cases hr

end Received

namespace Simulation

namespace Job

theorem outputFits_recordAfter (job : Job) (elapsed : Duration) :
    (job.recordAfter elapsed).OutputFits := by
  unfold recordAfter endedRecord
  split
  · constructor <;> simp [pendingRecord]
  split
  · constructor <;> simp [runningRecord, pendingRecord]
  · cases job.outcome <;> constructor <;> simp

theorem outputFits_recordSeen (job : Job) (elapsed : List Duration) :
    (job.recordSeen elapsed).OutputFits := by
  unfold recordSeen
  split
  · constructor <;> simp [pendingRecord]
  · exact outputFits_recordAfter job _

theorem timesFit_pendingRecord (job : Job) : job.pendingRecord.TimesFit := by
  constructor <;> simp [pendingRecord, JobStatus.isTerminal]

/-- The start of a job is a time after its creation, if two seconds have passed by a time. -/
theorem startedAt_of_since {job : Job} {now : Timestamp} (hcreated : job.createdAt.Valid)
    (hnow : now.Valid) (h : ¬ now.since job.createdAt < milliseconds 2000) :
    ∃ t, job.createdAt.add? (milliseconds 2000) = some t ∧ job.createdAt.before t = true ∧
      t.wholeSeconds = job.createdAt.wholeSeconds + 2 ∧ t.second < 86400 := by
  have hsome : (job.createdAt.add? (seconds (2 : Nat))).isSome = true :=
    Timestamp.isSome_add?_of_since hcreated hnow (by decide) (Int.not_lt.mp h)
  obtain ⟨t, ht⟩ := Option.isSome_iff_exists.mp hsome
  obtain ⟨hwhole, hsecond⟩ := Timestamp.wholeSeconds_of_add? hcreated.nano (by decide) ht
  refine ⟨t, ht, ?_, hwhole, hsecond⟩
  exact Timestamp.before_of_wholeSeconds hcreated.second hsecond (by omega)

theorem timesFit_runningRecord {job : Job} {now : Timestamp} (hcreated : job.createdAt.Valid)
    (hnow : now.Valid) (h : ¬ now.since job.createdAt < milliseconds 2000) :
    job.runningRecord.TimesFit := by
  obtain ⟨t, ht, hbefore, -, -⟩ := startedAt_of_since hcreated hnow h
  constructor <;> simp [runningRecord, pendingRecord, JobStatus.isTerminal, ht, hbefore]

theorem timesFit_endedRecord {job : Job} {now : Timestamp} (hcreated : job.createdAt.Valid)
    (hnow : now.Valid) (h : ¬ now.since job.createdAt < milliseconds 5000) :
    job.endedRecord.TimesFit := by
  have h₂ : ¬ now.since job.createdAt < milliseconds 2000 := fun hlt =>
    h (Int.lt_trans hlt (by decide))
  obtain ⟨t, ht, hbefore, htwhole, htsecond⟩ := startedAt_of_since hcreated hnow h₂
  have hsome : (job.createdAt.add? (seconds (5 : Nat))).isSome = true :=
    Timestamp.isSome_add?_of_since hcreated hnow (by decide) (Int.not_lt.mp h)
  obtain ⟨u, hu⟩ := Option.isSome_iff_exists.mp hsome
  obtain ⟨huwhole, husecond⟩ := Timestamp.wholeSeconds_of_add? hcreated.nano (by decide) hu
  have hlast : t.before u = true := Timestamp.before_of_wholeSeconds htsecond husecond (by omega)
  change job.createdAt.add? (milliseconds 5000) = some u at hu
  unfold endedRecord
  cases job.outcome <;> constructor <;>
    simp [runningRecord, pendingRecord, JobStatus.isTerminal, ht, hu, hbefore, hlast]

/-- The record for the time that has passed until a reading of the clock. -/
theorem timesFit_recordAfter {job : Job} {now : Timestamp} (hcreated : job.createdAt.Valid)
    (hnow : now.Valid) : (job.recordAfter (now.since job.createdAt)).TimesFit := by
  unfold recordAfter
  split
  · exact timesFit_pendingRecord job
  rename_i h₂
  split
  · exact timesFit_runningRecord hcreated hnow h₂
  · rename_i h₅
    exact timesFit_endedRecord hcreated hnow h₅

theorem timesFit_recordSeen {job : Job} {events : List Event} (hcreated : job.createdAt.Valid)
    (hvalid : ∀ event ∈ events, event.now.Valid) :
    (job.recordSeen (elapsedAt job events)).TimesFit := by
  unfold recordSeen
  split
  · exact timesFit_pendingRecord job
  · rename_i longest hmax
    obtain ⟨event, hevent, rfl⟩ := List.mem_map.mp (List.max?_mem hmax)
    exact timesFit_recordAfter hcreated (hvalid event (List.mem_filter.mp hevent).1)

end Job

namespace Shared

/-- A job is entered as of the time at which it was created. -/
def EntersNew {ι : Type} (s : Shared ι) : Prop :=
  ∀ job now, Event.entered job now ∈ s.log → job.createdAt = now

/-- The record of an event is that of a job which was entered when it was created, for the times at
which some events of the log read it. -/
theorem Traced.recordSeen {ι : Type} {s : Shared ι} (h : Traced s) (hnew : EntersNew s)
    {event : Event} {r : JobRecord} (hevent : event ∈ s.log) (hr : r ∈ event.records) :
    ∃ job events, r = job.recordSeen (elapsedAt job events) ∧
      Event.entered job job.createdAt ∈ s.log ∧ ∀ e ∈ events, e ∈ s.log := by
  obtain ⟨before, after, hlog⟩ := List.append_of_mem hevent
  obtain ⟨earlier, job, now, later, hentry, hrecord⟩ := h.accounted before event after hlog r hr
  have hsub : ∀ e ∈ earlier ++ .entered job now :: later, e ∈ s.log := by
    intro e he
    rw [hlog, List.append_cons, hentry]
    exact List.mem_append_left after he
  have hentered := hsub (.entered job now) (by simp)
  have hcreated := hnew job now hentered
  exact ⟨job, later, hrecord, hcreated ▸ hentered, fun e he => hsub e (by simp [he])⟩

variable {ι : Type} [DecidableEq ι]

theorem EntersNew.visited {s : Shared ι} (h : EntersNew s) (who : ι) (state : State) {event : Event}
    (hevent : ∀ job now, event = .entered job now → job.createdAt = now) :
    EntersNew (s.visited who state event) := by
  intro job now hmem
  rcases List.mem_append.mp hmem with hmem | hmem
  · exact h job now hmem
  · exact hevent job now (List.mem_singleton.mp hmem).symm

theorem EntersNew.effect {s s' : Shared ι} {who : ι} (h : EntersNew s) (he : Effect s who s') :
    EntersNew s' := by
  cases he with
  | nothing => exact h
  | alone stage hstage => exact h
  | number key hstage => exact h
  | enter key number now outcome hstage =>
    refine h.visited who _ ?_
    intro job now' hevent
    cases hevent
    rfl
  | lookUp jobId now hstage => exact h.visited who _ (fun _ _ hevent => by cases hevent)
  | list filter now hstage => exact h.visited who _ (fun _ _ hevent => by cases hevent)

theorem EntersNew.run {s : Shared ι} (h : EntersNew s) (moves : List (ι × Move)) :
    EntersNew (s.run moves) :=
  run_preserves (fun h he => h.effect he) h moves

end Shared
end Simulation

open Orchestrator Wire Simulation in
/-- The output of every record that is returned is there as its status says: from the real
orchestrator whatever the network does, and from the simulation whatever its callers do and the
clock shows.  If the clock shows timestamps that exist, then each record of the simulation also has
its times as its status says, in their order. -/
theorem output_and_times_fit_status :
    (∀ {ν : Type} (n : Network ν) (a : Access) (call : Call) (now : Nat) (s : ν)
      (answer : call.Answer), ((orchestrator n a).serve call now s).answer = .ok answer →
        ∀ r ∈ call.records answer, r.OutputFits) ∧
    (∀ {ι : Type} [DecidableEq ι] (capacity : Nat) (lifetime : Duration) (clock : Clock)
      (moves : List (ι × Move)),
      let log := ((Shared.start capacity lifetime clock : Shared ι).run moves).log
      ∀ event ∈ log, ∀ r ∈ event.records, r.OutputFits ∧
        ((∀ event ∈ log, event.now.Valid) → r.TimesFit)) := by
  constructor
  · intro ν n a call now s answer hanswer r hr
    obtain ⟨response, hinterpret⟩ := interpret_of_serve hanswer
    obtain ⟨row, processKey, hrow⟩ := row_of_interpret hinterpret r hr
    exact OData.JobRow.record?_outputFits hrow
  · intro ι _ capacity lifetime clock moves log event hevent r hr
    have htraced := (Shared.traced_start (ι := ι) capacity lifetime clock).run moves
    have hnew : (Shared.start capacity lifetime clock : Shared ι).EntersNew := by
      intro _ _ hmem
      cases hmem
    obtain ⟨job, events, rfl, hentered, hevents⟩ :=
      htraced.recordSeen (hnew.run moves) hevent hr
    refine ⟨job.outputFits_recordSeen _, fun hvalid => ?_⟩
    exact Job.timesFit_recordSeen (hvalid _ hentered) fun e he => hvalid e (hevents e he)

/-- A network on which every request is answered with a finished job whose output is blank. -/
def finishedJob : Wire.Network Unit where
  hosts := .all
  send _ s :=
    (some { status := 200
            body := Text.utf8 ("\x7b\"Id\":7,\"State\":\"Successful\"," ++
              "\"CreationTime\":\"2026-01-01T00:00:00Z\",\"OutputArguments\":\" \"\x7d") }, s)

open Orchestrator Simulation in
/-- A finished job with a blank output is shown with an empty one; and a job that was created inside
the last leap second of a year and is listed in the next has a start and an end. -/
theorem output_and_times_fit_in_leap_second :
    let reply := (orchestrator finishedJob ⟨"http://o", "t", "k"⟩).serve (.getJob "7") 0 ()
    let created : Timestamp := ⟨20453, 86399, 1500000000⟩
    let listed : Timestamp := ⟨20454, 5, 500000000⟩
    let log := ((Shared.start 10 (seconds 60) (.held created) : Shared Unit).run
      [((), .takeNumber "P"), ((), .readClock created), ((), .roll .faulted), ((), .enter),
        ((), .survey {} listed), ((), .list)]).log
    (∃ r, reply.answer = .ok r ∧ r.status = .successful ∧ r.OutputFits) ∧
    (∀ event ∈ log, event.now.Valid) ∧
      ∃ event ∈ log, ∃ r ∈ event.records, r.status = .faulted ∧ r.OutputFits ∧ r.TimesFit := by
  intro reply created listed log
  have hstatus : reply.answer.toOption.map JobRecord.status = some .successful := by decide +kernel
  have hnow : log.map Event.now = [created, listed] := by decide +kernel
  have hvalid : ∀ event ∈ log, event.now.Valid := by
    intro event hevent
    have hmem : event.now ∈ [created, listed] := hnow ▸ List.mem_map_of_mem hevent
    simp only [List.mem_cons, List.not_mem_nil, or_false] at hmem
    rcases hmem with h | h <;> rw [h] <;>
      exact ⟨by decide +kernel, by decide, by decide, by decide +kernel⟩
  refine ⟨?_, hvalid, ?_⟩
  · cases hanswer : reply.answer with
    | error f => simp [hanswer, Except.toOption] at hstatus
    | ok r =>
      refine ⟨r, rfl, by simpa [hanswer, Except.toOption] using hstatus, ?_⟩
      exact output_and_times_fit_status.1 finishedJob _ (.getJob "7") 0 () r hanswer r
        (List.mem_singleton.mpr rfl)
  · have hlast : ∃ event ∈ log, ∃ r ∈ event.records, r.status = .faulted := by decide +kernel
    obtain ⟨event, hevent, r, hr, hstatus⟩ := hlast
    obtain ⟨houtput, htimes⟩ := output_and_times_fit_status.2 10 (seconds 60) (.held created) _
      event hevent r hr
    exact ⟨event, hevent, r, hr, hstatus, houtput, htimes hvalid⟩

end RobotDesk
