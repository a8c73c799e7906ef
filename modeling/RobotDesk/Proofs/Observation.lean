import RobotDesk.Proofs.Interleaving

/-!
What callers get to see of one job.

The records of a job are taken in the order in which the registry gave them out, to whomever.  Each
is the record for the longest time that had passed at any read of the job so far, whatever the clock
showed in between; a read is a search for the job, or a listing of the jobs, also with a filter that
the job does not pass.  So no record goes back behind an earlier one.
-/
namespace RobotDesk.Simulation

open Time

namespace Event

/-- The records that a caller is answered with. -/
def records : Event → List JobRecord
  | .entered job _ => [job.snapshot]
  | .sought _ _ (.ok record) => [record]
  | .sought _ _ (.error _) => []
  | .listed _ _ answer => answer

/-- Whether the job with an id is brought up to date, if it is there. -/
def reads (id : String) : Event → Bool
  | .entered _ _ => false
  | .sought jobId _ _ => id = jobId
  | .listed _ _ _ => true

end Event

/-- The records of the job with an id that were given out, in their order. -/
def observed (id : String) (log : List Event) : List JobRecord :=
  log.flatMap fun event => event.records.filter (·.jobId = id)

/-- The times that had passed since the creation of a job, at the events that read it. -/
def elapsedAt (job : Job) (events : List Event) : List Duration :=
  (events.filter (Event.reads job.jobId)).map fun event => event.now.since job.createdAt

theorem elapsedAt_append (job : Job) (events events' : List Event) :
    elapsedAt job (events ++ events') = elapsedAt job events ++ elapsedAt job events' := by
  simp [elapsedAt]

/-- The record of a job that was read when some times had passed: the one for the longest of them,
or that of a job just created if it was not read. -/
def Job.recordSeen (job : Job) (elapsed : List Duration) : JobRecord :=
  match elapsed.max? with
  | none => job.pendingRecord
  | some longest => job.recordAfter longest

@[simp] theorem Job.jobId_recordSeen (job : Job) (elapsed : List Duration) :
    (job.recordSeen elapsed).jobId = job.jobId := by
  unfold recordSeen
  split
  · rfl
  · exact jobId_recordAfter _ _

theorem Job.snapshot_eq_recordSeen {job : Job} {elapsed : List Duration}
    (h : job.phase = .reached elapsed) : job.snapshot = job.origin.recordSeen elapsed := by
  unfold recordSeen
  split
  · rename_i hmax
    exact snapshot_of_pending (by rw [h, Phase.reached, hmax]; rfl)
  · rename_i longest hmax
    exact snapshot_eq_recordAfter (by rw [h, Phase.reached, hmax]; rfl)

theorem Job.pendingRecord_continues (job : Job) (elapsed : Duration) :
    job.pendingRecord.Continues (job.recordAfter elapsed) := by
  have hpending : job.recordAfter (min elapsed 0) = job.pendingRecord :=
    if_pos (Int.lt_of_le_of_lt (Int.min_le_right elapsed 0) (by decide))
  rw [← hpending]
  exact job.continues_recordAfter (Int.min_le_left elapsed 0)

/-- A record that a job has after more reads continues one that it had before. -/
theorem Job.continues_recordSeen (job : Job) (elapsed more : List Duration) :
    (job.recordSeen elapsed).Continues (job.recordSeen (elapsed ++ more)) := by
  unfold recordSeen
  cases hlong : (elapsed ++ more).max? with
  | none =>
    have hnil : elapsed = [] := (List.append_eq_nil_iff.mp (List.max?_eq_none_iff.mp hlong)).1
    subst hnil
    exact .refl _
  | some longest =>
    cases hshort : elapsed.max? with
    | none => exact job.pendingRecord_continues longest
    | some d =>
      have hmem : d ∈ elapsed ++ more := List.mem_append_left _ (List.max?_mem hshort)
      exact job.continues_recordAfter ((List.max?_eq_some_iff.mp hlong).2 d hmem)

/-- The job was entered, and since then was read at the times that make its phase. -/
def Course (log : List Event) (job : Job) : Prop :=
  ∃ earlier now later, log = earlier ++ .entered job.origin now :: later ∧
    job.phase = .reached (elapsedAt job.origin later)

/-- The record is that of a job which was entered, for the times at which it was read since then. -/
def Seen (log : List Event) (r : JobRecord) : Prop :=
  ∃ earlier job now later, log = earlier ++ .entered job now :: later ∧
    r = job.recordSeen (elapsedAt job later)

theorem Course.seen {log : List Event} {job : Job} (h : Course log job) :
    Seen log job.snapshot := by
  obtain ⟨earlier, now, later, hlog, hphase⟩ := h
  exact ⟨earlier, job.origin, now, later, hlog, Job.snapshot_eq_recordSeen hphase⟩

/-- An event brings a job up to date if it reads it, and leaves it alone otherwise. -/
theorem Course.event {log : List Event} {job : Job} (h : Course log job) (event : Event) :
    Course (log ++ [event])
      (if event.reads job.jobId = true then job.advance event.now else job) := by
  obtain ⟨earlier, now, later, rfl, hphase⟩ := h
  refine ⟨earlier, now, later ++ [event], ?_, ?_⟩
  · split <;> simp
  · split
    · rename_i hreads
      have helapsed : elapsedAt job.origin [event] = [event.now.since job.createdAt] := by
        simp [elapsedAt, hreads]
      rw [Job.origin_advance, elapsedAt_append, helapsed, ← Phase.later_reached, ← hphase]
      rfl
    · rename_i hreads
      have helapsed : elapsedAt job.origin [event] = [] := by simp [elapsedAt, hreads]
      rw [elapsedAt_append, helapsed, List.append_nil]
      exact hphase

/-- A job is entered at one place only. -/
theorem entered_at_one_place {log : List Event}
    (once : (entries log).Pairwise fun a b => a.number ≠ b.number)
    {earlier earlier' later later' : List Event} {job job' : Job} {now now' : Timestamp}
    (h : log = earlier ++ .entered job now :: later)
    (h' : log = earlier' ++ .entered job' now' :: later') (hn : job.number = job'.number) :
    job = job' ∧ later = later' := by
  -- If one entry stood behind the other, the log would hold two with this number.
  have apart : ∀ {a b : List Event} {x y : Job} {t u : Timestamp} (c : List Event),
      log = a ++ .entered x t :: (c ++ .entered y u :: b) → x.number ≠ y.number := by
    intro a b x y t u c hlog
    rw [hlog] at once
    simp only [entries, List.filterMap_append, List.filterMap_cons, Event.job?] at once
    have htail := (List.pairwise_append.mp once).2.1
    exact (List.pairwise_cons.mp htail).1 y (by simp)
  rcases List.append_eq_append_iff.mp (h.symm.trans h') with ⟨c, -, hc⟩ | ⟨c, -, hc⟩
  · cases c with
    | nil =>
      injection hc with hentry hlater
      injection hentry with hjob
      exact ⟨hjob, hlater⟩
    | cons e c =>
      injection hc with he hlater
      have hlog : log = earlier ++ .entered job now :: (c ++ .entered job' now' :: later') :=
        h.trans (by rw [hlater]; rfl)
      exact absurd hn (apart c hlog)
  · cases c with
    | nil =>
      injection hc with hentry hlater
      injection hentry with hjob
      exact ⟨hjob.symm, hlater.symm⟩
    | cons e c =>
      injection hc with he hlater
      have hlog : log = earlier' ++ .entered job' now' :: (c ++ .entered job now :: later) :=
        h'.trans (by rw [hlater]; rfl)
      exact absurd hn.symm (apart c hlog)

/-- Of two records of one job, the one that was given out later continues the other. -/
theorem Seen.continues {log more : List Event} {r r' : JobRecord} (h : Seen log r)
    (h' : Seen (log ++ more) r')
    (once : (entries (log ++ more)).Pairwise fun a b => a.number ≠ b.number)
    (hid : ∀ job ∈ entries (log ++ more), job.jobId = jobId job.number)
    (heq : r.jobId = r'.jobId) : r.Continues r' := by
  obtain ⟨earlier, job, now, later, hlog, rfl⟩ := h
  obtain ⟨earlier', job', now', later', hlog', rfl⟩ := h'
  have hmore : log ++ more = earlier ++ .entered job now :: (later ++ more) := by
    rw [hlog]
    simp
  have hjob : job ∈ entries (log ++ more) := by
    rw [hmore]
    simp [entries, Event.job?]
  have hjob' : job' ∈ entries (log ++ more) := by
    rw [hlog']
    simp [entries, Event.job?]
  have hn : job.number = job'.number := by
    rw [Job.jobId_recordSeen, Job.jobId_recordSeen, hid job hjob, hid job' hjob'] at heq
    exact jobId_inj.mp heq
  obtain ⟨rfl, rfl⟩ := entered_at_one_place once hmore hlog' hn
  rw [elapsedAt_append]
  exact job.continues_recordSeen _ _

/-- Each record that was given out is that of a job as it had been read by then. -/
def Accounted (log : List Event) : Prop :=
  ∀ before event after, log = before ++ event :: after →
    ∀ r ∈ event.records, Seen (before ++ [event]) r

theorem Accounted.concat {log : List Event} {event : Event} (h : Accounted log)
    (hevent : ∀ r ∈ event.records, Seen (log ++ [event]) r) : Accounted (log ++ [event]) := by
  intro before e after hlog r hr
  rcases List.eq_nil_or_concat after with rfl | ⟨init, last, rfl⟩
  · obtain ⟨rfl, hlast⟩ := List.append_inj' hlog rfl
    obtain rfl := List.singleton_inj.mp hlast
    exact hevent r hr
  · rw [List.concat_eq_append, ← List.cons_append, ← List.append_assoc] at hlog
    exact h before e init (List.append_inj' hlog rfl).1 r hr

theorem Accounted.continues {log : List Event} (h : Accounted log)
    (once : (entries log).Pairwise fun a b => a.number ≠ b.number)
    (hid : ∀ job ∈ entries log, job.jobId = jobId job.number) (id : String) :
    (observed id log).Pairwise JobRecord.Continues := by
  -- Each event is taken with its place, as what was read before it makes its records.
  have hseen : ∀ i (hi : i < log.length), ∀ r ∈ log[i].records, Seen (log.take (i + 1)) r := by
    intro i hi r hr
    rw [List.take_succ_eq_append_getElem hi]
    refine h (log.take i) log[i] (log.drop (i + 1)) ?_ r hr
    rw [List.getElem_cons_drop, List.take_append_drop]
  have hordered : ∀ i j (hi : i < log.length) (hj : j < log.length), i ≤ j →
      ∀ r ∈ log[i].records.filter (·.jobId = id), ∀ r' ∈ log[j].records.filter (·.jobId = id),
        r.Continues r' := by
    intro i j hi hj hij r hr r' hr'
    obtain ⟨hr, hrid⟩ := List.mem_filter.mp hr
    obtain ⟨hr', hrid'⟩ := List.mem_filter.mp hr'
    obtain ⟨more, hmore⟩ := List.take_prefix_take_left (l := log) (Nat.succ_le_succ hij)
    have hsub : (entries (log.take (j + 1))).Sublist (entries log) :=
      (List.take_sublist _ _).filterMap _
    have hlater := hseen j hj r' hr'
    rw [← hmore] at hlater hsub
    exact (hseen i hi r hr).continues hlater (once.sublist hsub)
      (fun job hj => hid job (hsub.subset hj))
      ((of_decide_eq_true hrid).trans (of_decide_eq_true hrid').symm)
  rw [observed, List.pairwise_flatMap]
  constructor
  · intro event hevent
    obtain ⟨i, hi, rfl⟩ := List.getElem_of_mem hevent
    rw [List.pairwise_iff_getElem]
    intro k l hk hl _
    exact hordered i i hi hi (Nat.le_refl i) _ (List.getElem_mem hk) _ (List.getElem_mem hl)
  · rw [List.pairwise_iff_getElem]
    intro i j hi hj hij
    exact hordered i j hi hj (Nat.le_of_lt hij)

theorem records_sought (s : State) (jobId : String) (now : Timestamp) :
    ∀ r ∈ (Event.sought jobId now (s.get jobId now).1).records,
      ∃ job ∈ (s.registry.expire now).jobs,
        (Event.sought jobId now (s.get jobId now).1).reads job.jobId = true ∧
          r = (job.advance now).snapshot := by
  intro r hr
  rw [State.get_fst, Registry.get_fst] at hr
  cases hfind : (s.registry.expire now).jobs.find? (·.jobId = jobId) with
  | none =>
    rw [hfind] at hr
    cases hr
  | some job =>
    rw [hfind] at hr
    obtain rfl := List.mem_singleton.mp hr
    have hid := List.find?_some hfind
    exact ⟨job, List.mem_of_find?_eq_some hfind, hid, rfl⟩

theorem records_listed (s : State) (filter : JobFilter) (now : Timestamp) :
    ∀ r ∈ (s.list filter now).1, ∃ job ∈ (s.registry.expire now).jobs,
      r = (job.advance now).snapshot := by
  intro r hr
  rw [State.list_fst, Registry.list_fst] at hr
  obtain ⟨job, hj, rfl⟩ := List.mem_map.mp (List.mem_filter.mp hr).1
  exact ⟨job, hj, rfl⟩

namespace Shared

/-- How the jobs came to be as they are, and the records that callers were given. -/
structure Traced {ι : Type} (s : Shared ι) : Prop where
  courses : ∀ job ∈ s.state.registry.jobs, Course s.log job
  accounted : Accounted s.log

theorem traced_start {ι : Type} (capacity : Nat) (lifetime : Duration) (clock : Clock) :
    Traced (start capacity lifetime clock : Shared ι) where
  courses := fun _ h => by cases h
  accounted := by
    intro before event after hlog
    exact absurd hlog.symm (by simp [start])

variable {ι : Type} [DecidableEq ι] {s : Shared ι}

theorem Traced.enter (h : Traced s) (who : ι) {job : Job} (hjob : job.phase = .pending)
    (now : Timestamp) : Traced (s.visited who (s.state.enter job now) (.entered job now)) := by
  have horigin : job.origin = job := by
    rw [Job.origin, ← hjob]
  have hcourse : Course (s.log ++ [.entered job now]) job :=
    ⟨s.log, now, [], by rw [horigin], hjob⟩
  constructor
  · intro other ho
    obtain ⟨kept, hkept, hjobs⟩ := s.state.registry.kept_sublist job now
    change other ∈ (s.state.registry.insert job now).jobs at ho
    rw [hjobs] at ho
    rcases List.mem_append.mp ho with ho | ho
    · exact (h.courses other (hkept.subset ho)).event (.entered job now)
    · obtain rfl := List.mem_singleton.mp ho
      exact hcourse
  · apply h.accounted.concat
    intro r hr
    obtain rfl := List.mem_singleton.mp hr
    exact hcourse.seen

/-- A read gives out records of jobs that it has brought up to date. -/
theorem Traced.read (h : Traced s) (who : ι) (event : Event)
    (hrecords : ∀ r ∈ event.records, ∃ job ∈ (s.state.registry.expire event.now).jobs,
      event.reads job.jobId = true ∧ r = (job.advance event.now).snapshot) :
    Traced (s.visited who
      { s.state with
        registry := (s.state.registry.expire event.now).refresh event.now
          fun job => event.reads job.jobId }
      event) := by
  have hcourse : ∀ job ∈ (s.state.registry.expire event.now).jobs, Course (s.log ++ [event])
      (if event.reads job.jobId = true then job.advance event.now else job) := by
    intro job hj
    exact (h.courses job ((s.state.registry.expire_sublist event.now).subset hj)).event event
  constructor
  · intro job' hj'
    obtain ⟨job, hj, rfl⟩ := List.mem_map.mp hj'
    exact hcourse job hj
  · apply h.accounted.concat
    intro r hr
    obtain ⟨job, hj, hreads, rfl⟩ := hrecords r hr
    have hc := hcourse job hj
    rw [if_pos hreads] at hc
    exact hc.seen

theorem Traced.effect (h : Traced s) {who : ι} {s' : Shared ι} (he : Effect s who s') :
    Traced s' := by
  cases he with
  | nothing => exact h
  | alone stage hstage => exact ⟨h.courses, h.accounted⟩
  | number key hstage => exact ⟨h.courses, h.accounted⟩
  | enter key number now outcome hstage => exact h.enter who rfl now
  | lookUp jobId now hstage =>
    rw [State.get_snd]
    exact h.read who (.sought jobId now _) (records_sought s.state jobId now)
  | list filter now hstage =>
    rw [State.list_snd]
    refine h.read who (.listed filter now _) ?_
    intro r hr
    obtain ⟨job, hj, hrecord⟩ := records_listed s.state filter now r hr
    exact ⟨job, hj, rfl, hrecord⟩

theorem Traced.run (h : Traced s) (moves : List (ι × Move)) : Traced (s.run moves) :=
  run_preserves (fun h he => h.effect he) h moves

/-- Whatever callers do, in whatever order, and whatever the clock shows: of the records that are
given out for an id, each continues all those before it; and each is the record of the job with that
id for the longest time that had passed at any read of the job since it was entered. -/
theorem observed_job_never_regresses (capacity : Nat) (lifetime : Duration) (clock : Clock)
    (moves : List (ι × Move)) (id : String) :
    let log := ((start capacity lifetime clock : Shared ι).run moves).log
    (observed id log).Pairwise JobRecord.Continues ∧
    ∀ before event after, log = before ++ event :: after →
      ∀ r ∈ event.records, r.jobId = id →
        ∃ earlier job now later, before ++ [event] = earlier ++ .entered job now :: later ∧
          job.jobId = id ∧ r = job.recordSeen (elapsedAt job later) := by
  intro log
  have htraced := (traced_start (ι := ι) capacity lifetime clock).run moves
  have hnumbering := ((inv_start (ι := ι) capacity lifetime clock).run moves).numbering
  constructor
  · exact htraced.accounted.continues hnumbering.once
      (fun job hj => (hnumbering.entered job hj).1) id
  · intro before event after hlog r hr hid
    obtain ⟨earlier, job, now, later, hentry, hrecord⟩ :=
      htraced.accounted before event after hlog r hr
    refine ⟨earlier, job, now, later, hentry, ?_, hrecord⟩
    rw [← hid, hrecord, Job.jobId_recordSeen]

end Shared
end RobotDesk.Simulation
