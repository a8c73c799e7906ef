import RobotDesk.Proofs.JobOutput

/-!
Time arithmetic in the simulation.

When a job is read, the time since its creation is taken, and its record has two more times, which
come from adding two and five seconds to its creation.  A duration has a longest length, and a
timestamp may not leave the range of days.  So the reads are written down once more here, with
arithmetic that is checked: they give nothing where a result does not fit.

A job comes to run or to end only through a reading of the clock that is so much later than its
creation.  That reading exists, and the phase never forgets it, also when the clock steps back; so
what is added never leaves the range.  With no leap second among the readings, the times in a record
are not after the latest of them.
-/
namespace RobotDesk

namespace Time

/-- The longest duration, in either direction: as many milliseconds as 64 bits with a sign can
tell. -/
def longestDuration : Duration := milliseconds 9223372036854775807

namespace Timestamp

/-- The duration from one timestamp to another, unless it is longer than a duration can be. -/
def since? (a b : Timestamp) : Option Duration :=
  if -longestDuration ≤ a.since b ∧ a.since b ≤ longestDuration then some (a.since b) else none

/-- A time that is only told when it is due; then it must not leave the range. -/
def addIf? (due : Bool) (t : Timestamp) (d : Duration) : Option (Option Timestamp) :=
  if due then (t.add? d).map some else some none

/-- A timestamp whole seconds after another.  A leap second counts as the second before it. -/
structure IsAfter (t : Timestamp) (k : Nat) (u : Timestamp) : Prop where
  added : t.add? (seconds k) = some u
  whole : u.wholeSeconds = t.wholeSeconds + k
  nano : u.nano = t.nano % nanosPerSecond

/-- A latest one of some timestamps. -/
def IsLatest (nows : List Timestamp) (t : Timestamp) : Prop :=
  t ∈ nows ∧ ∀ u ∈ nows, t.before u = false

variable {t u now : Timestamp} {k : Nat}

/-- All timestamps are less than `2 ^ 28` days apart. -/
theorem since?_of_valid (hnow : now.Valid) (ht : t.Valid) : now.since? t = some (now.since t) := by
  have hfirst : -134217728 < firstDay := by decide
  have hlast : lastDay < 134217728 := by decide
  have hday := hnow.day
  have hsecond := hnow.second
  have hnano := hnow.nano
  have hday' := ht.day
  have hsecond' := ht.second
  have hnano' := ht.nano
  simp only [dayInRange, Bool.and_eq_true, decide_eq_true_eq] at hday hday'
  have hfits : -longestDuration ≤ now.since t ∧ now.since t ≤ longestDuration := by
    simp only [since, seconds, longestDuration, milliseconds, nanosPerSecond] at *
    generalize hleap : (if t.second < now.second then (if t.isLeap then (1 : Int) else 0)
      else if now.second < t.second then (if now.isLeap then -1 else 0) else 0) = leap
    have hsmall : -1 ≤ leap ∧ leap ≤ 1 := by
      rw [← hleap]
      grind
    change (_ : Int) ≤ _ ∧ (_ : Int) ≤ _
    omega
  exact if_pos hfits

theorem isAfter_of_add? (ht : t.nano < 2 * nanosPerSecond) (hk : 0 < k)
    (h : t.add? (seconds k) = some u) : t.IsAfter k u := by
  refine ⟨h, (wholeSeconds_of_add? ht hk h).1, ?_⟩
  rw [add?_seconds ht hk] at h
  split at h
  · cases h
    rfl
  · cases h

theorem regular_of_valid (h : t.Valid) (hleap : t.isLeap = false) : t.Regular := by
  refine ⟨h.second, ?_⟩
  simp only [isLeap, decide_eq_false_iff_not] at hleap
  omega

/-- Seconds that have passed by a regular timestamp lead no further than to it. -/
theorem instant_le_of_since (ht : t.nano < 2 * nanosPerSecond) (hk : 0 < k) (hnow : now.Regular)
    (h : seconds k ≤ now.since t) (hu : t.IsAfter k u) : u.Regular ∧ u.instant ≤ now.instant := by
  have hsecond := (wholeSeconds_of_add? ht hk hu.added).2
  have hmod : t.nano % nanosPerSecond < nanosPerSecond := Nat.mod_lt _ (by decide)
  have hregular : u.Regular := ⟨hsecond, by rw [hu.nano]; exact hmod⟩
  refine ⟨hregular, ?_⟩
  have hwhole := hu.whole
  have hnano := hu.nano
  have hnow' := hnow.nano
  -- A leap second of `t` counts one second more at most, as much as its nanoseconds are more.
  simp only [since, seconds, isLeap_eq_false hnow, isLeap_iff] at h
  simp only [instant, wholeSeconds, nanosPerSecond] at *
  change (k : Int) * 1000000000 ≤ (_ : Int) at h
  grind

theorem exists_isLatest {nows : List Timestamp} (hne : nows ≠ []) (h : ∀ t ∈ nows, t.Regular) :
    ∃ last, IsLatest nows last := by
  induction nows with
  | nil => exact absurd rfl hne
  | cons t nows ih =>
    have ht : t.Regular := h t List.mem_cons_self
    have hmore : ∀ u ∈ nows, u.Regular := fun u hu => h u (List.mem_cons_of_mem t hu)
    have hself : t.before t = false := by simp [← Bool.not_eq_true, before_iff ht ht]
    by_cases hnil : nows = []
    · subst hnil
      exact ⟨t, List.mem_cons_self, by simpa using hself⟩
    obtain ⟨last, hlast, hlatest⟩ := ih hnil hmore
    have hregular : last.Regular := hmore last hlast
    cases hbefore : last.before t with
    | false =>
      refine ⟨last, List.mem_cons_of_mem t hlast, fun u hu => ?_⟩
      rcases List.mem_cons.mp hu with rfl | hu
      · exact hbefore
      · exact hlatest u hu
    | true =>
      refine ⟨t, List.mem_cons_self, fun u hu => ?_⟩
      rcases List.mem_cons.mp hu with rfl | hu
      · exact hself
      · have hu' := hlatest u hu
        rw [← Bool.not_eq_true, before_iff hregular (hmore u hu)] at hu'
        rw [← Bool.not_eq_true, before_iff ht (hmore u hu)]
        rw [before_iff hregular ht] at hbefore
        omega

/-- What comes from adding a time that had passed at a reading is not after the latest reading. -/
theorem IsAfter.not_before_latest {nows : List Timestamp} (hu : t.IsAfter k u)
    (ht : t.nano < 2 * nanosPerSecond) (hk : 0 < k) (hnows : ∀ now ∈ nows, now.Regular)
    (hnow : now ∈ nows) (h : seconds k ≤ now.since t) :
    ∃ last, IsLatest nows last ∧ last.before u = false := by
  obtain ⟨last, hlast, hlatest⟩ := exists_isLatest (List.ne_nil_of_mem hnow) hnows
  obtain ⟨hregular, hle⟩ := instant_le_of_since ht hk (hnows now hnow) h hu
  refine ⟨last, ⟨hlast, hlatest⟩, ?_⟩
  have hnot := hlatest now hnow
  rw [← Bool.not_eq_true, before_iff (hnows last hlast) (hnows now hnow)] at hnot
  rw [← Bool.not_eq_true, before_iff (hnows last hlast) hregular]
  omega

end Timestamp
end Time

namespace Simulation

open Time

namespace Phase

/-- A job runs or has ended only if at some reading two seconds had passed. -/
theorem exists_of_reached_ne_pending {elapsed : List Duration} (h : reached elapsed ≠ .pending) :
    ∃ d ∈ elapsed, milliseconds 2000 ≤ d := by
  cases hmax : elapsed.max? with
  | none => simp [reached, hmax] at h
  | some d =>
    refine ⟨d, List.max?_mem hmax, Int.not_lt.mp fun hlt => h ?_⟩
    rw [reached, hmax]
    exact due_eq_pending hlt

/-- A job has ended only if at some reading five seconds had passed. -/
theorem exists_of_reached_finished {elapsed : List Duration} (h : reached elapsed = .finished) :
    ∃ d ∈ elapsed, milliseconds 5000 ≤ d := by
  cases hmax : elapsed.max? with
  | none => simp [reached, hmax] at h
  | some d =>
    refine ⟨d, List.max?_mem hmax, Int.not_lt.mp fun hlt => ?_⟩
    have hdue : due d = .finished := by simpa [reached, hmax] using h
    by_cases hpending : d < milliseconds 2000
    · rw [due_eq_pending hpending] at hdue
      cases hdue
    · rw [due_eq_running hpending hlt] at hdue
      cases hdue

end Phase

namespace Job

/-- Brings a job up to date, unless the time since its creation is longer than a duration can be. -/
def advance? (job : Job) (now : Timestamp) : Option Job :=
  (now.since? job.createdAt).map fun elapsed =>
    { job with phase := job.phase.later (.due elapsed) }

/-- The record of a job, unless one of its times leaves the range. -/
def snapshot? (job : Job) : Option JobRecord := do
  let startedAt ← Timestamp.addIf? (job.phase ≠ .pending) job.createdAt runningAfter
  let endedAt ← Timestamp.addIf? (job.phase = .finished) job.createdAt finishedAfter
  return { job.snapshot with startedAt := startedAt, endedAt := endedAt }

/-- The phase of a job comes from some readings of the clock, none of which is lost. -/
def ReachedAt (job : Job) (nows : List Timestamp) : Prop :=
  job.phase = .reached (nows.map fun now => now.since job.createdAt)

variable {job : Job} {now : Timestamp} {nows : List Timestamp}

theorem advance?_of_valid (hnow : now.Valid) (hcreated : job.createdAt.Valid) :
    job.advance? now = some (job.advance now) := by
  rw [advance?, Timestamp.since?_of_valid hnow hcreated]
  rfl

theorem ReachedAt.advance (h : job.ReachedAt nows) (now : Timestamp) :
    (job.advance now).ReachedAt (nows ++ [now]) := by
  have hphase : (job.advance now).phase = job.phase.later (.due (now.since job.createdAt)) := rfl
  rw [ReachedAt, hphase, h, Phase.later_reached, List.map_append]
  rfl

/-- A job is brought up to date again and again: no step fails, and all readings count. -/
theorem ReachedAt.foldl (h : job.ReachedAt nows) (hcreated : job.createdAt.Valid)
    (more : List Timestamp) (hmore : ∀ now ∈ more, now.Valid) :
    more.foldlM advance? job = some (more.foldl Job.advance job) ∧
      (more.foldl Job.advance job).ReachedAt (nows ++ more) ∧
      (more.foldl Job.advance job).createdAt = job.createdAt := by
  induction more generalizing job nows with
  | nil => exact ⟨rfl, by simpa using h, rfl⟩
  | cons now more ih =>
    obtain ⟨hfold, hreached, hsame⟩ := ih (h.advance now) hcreated
      fun u hu => hmore u (List.mem_cons_of_mem now hu)
    rw [List.append_assoc] at hreached
    refine ⟨?_, hreached, hsame⟩
    rw [List.foldlM_cons, advance?_of_valid (hmore now List.mem_cons_self) hcreated]
    exact hfold

/-- Seconds that have passed by a reading can be added to the creation of a job. -/
theorem isAfter_of_since (hcreated : job.createdAt.Valid) (hnow : now.Valid) {k : Nat} (hk : 0 < k)
    (h : seconds k ≤ now.since job.createdAt) : ∃ t, job.createdAt.IsAfter k t := by
  obtain ⟨t, ht⟩ := Option.isSome_iff_exists.mp
    (Timestamp.isSome_add?_of_since hcreated hnow hk h)
  exact ⟨t, Timestamp.isAfter_of_add? hcreated.nano hk ht⟩

theorem ReachedAt.exists_running (h : job.ReachedAt nows) (hphase : job.phase ≠ .pending) :
    ∃ now ∈ nows, seconds (2 : Nat) ≤ now.since job.createdAt := by
  rw [h] at hphase
  obtain ⟨d, hd, hle⟩ := Phase.exists_of_reached_ne_pending hphase
  obtain ⟨now, hnow, rfl⟩ := List.mem_map.mp hd
  exact ⟨now, hnow, hle⟩

theorem ReachedAt.exists_finished (h : job.ReachedAt nows) (hphase : job.phase = .finished) :
    ∃ now ∈ nows, seconds (5 : Nat) ≤ now.since job.createdAt := by
  rw [h] at hphase
  obtain ⟨d, hd, hle⟩ := Phase.exists_of_reached_finished hphase
  obtain ⟨now, hnow, rfl⟩ := List.mem_map.mp hd
  exact ⟨now, hnow, hle⟩

/-- A job that runs or has ended has a start, two seconds after its creation, which were over at
some reading. -/
theorem ReachedAt.startedAt (h : job.ReachedAt nows) (hcreated : job.createdAt.Valid)
    (hnows : ∀ now ∈ nows, now.Valid) (hphase : job.phase ≠ .pending) :
    ∃ t, job.startedAt = some t ∧ job.createdAt.IsAfter 2 t ∧
      ∃ now ∈ nows, seconds (2 : Nat) ≤ now.since job.createdAt := by
  obtain ⟨now, hnow, hpassed⟩ := h.exists_running hphase
  obtain ⟨t, ht⟩ := isAfter_of_since hcreated (hnows now hnow) (by decide) hpassed
  have hadded : job.createdAt.add? runningAfter = some t := ht.added
  refine ⟨t, ?_, ht, now, hnow, hpassed⟩
  unfold Job.startedAt
  split
  · exact absurd ‹_› hphase
  · exact hadded
  · exact hadded

/-- A job that has ended has an end, five seconds after its creation, which were over at some
reading. -/
theorem ReachedAt.endedAt (h : job.ReachedAt nows) (hcreated : job.createdAt.Valid)
    (hnows : ∀ now ∈ nows, now.Valid) (hphase : job.phase = .finished) :
    ∃ t, job.endedAt = some t ∧ job.createdAt.IsAfter 5 t ∧
      ∃ now ∈ nows, seconds (5 : Nat) ≤ now.since job.createdAt := by
  obtain ⟨now, hnow, hpassed⟩ := h.exists_finished hphase
  obtain ⟨t, ht⟩ := isAfter_of_since hcreated (hnows now hnow) (by decide) hpassed
  have hadded : job.createdAt.add? finishedAfter = some t := ht.added
  refine ⟨t, ?_, ht, now, hnow, hpassed⟩
  rw [Job.endedAt, hphase]
  exact hadded

theorem startedAt_of_pending (h : job.phase = .pending) : job.startedAt = none := by
  rw [startedAt, h]

theorem endedAt_of_unfinished (h : job.phase ≠ .finished) : job.endedAt = none := by
  unfold endedAt
  split
  · rfl
  · rfl
  · exact absurd ‹_› h

/-- The times in the record of a job can be computed. -/
theorem ReachedAt.snapshot? (h : job.ReachedAt nows) (hcreated : job.createdAt.Valid)
    (hnows : ∀ now ∈ nows, now.Valid) : job.snapshot? = some job.snapshot := by
  have hstarted : Timestamp.addIf? (job.phase ≠ .pending) job.createdAt runningAfter =
      some job.startedAt := by
    by_cases hphase : job.phase = .pending
    · simp [Timestamp.addIf?, hphase, startedAt_of_pending hphase]
    · obtain ⟨t, ht, hafter, -⟩ := h.startedAt hcreated hnows hphase
      have hadded : job.createdAt.add? runningAfter = some t := hafter.added
      simp [Timestamp.addIf?, hphase, ht, hadded]
  have hended : Timestamp.addIf? (job.phase = .finished) job.createdAt finishedAfter =
      some job.endedAt := by
    by_cases hphase : job.phase = .finished
    · obtain ⟨t, ht, hafter, -⟩ := h.endedAt hcreated hnows hphase
      have hadded : job.createdAt.add? finishedAfter = some t := hafter.added
      simp [Timestamp.addIf?, hphase, ht, hadded]
    · simp [Timestamp.addIf?, hphase, endedAt_of_unfinished hphase]
  rw [Job.snapshot?, hstarted, hended]
  rfl

/-- A time in the record of a job is two or five seconds after its creation, and these were over at
some reading. -/
theorem ReachedAt.told (h : job.ReachedAt nows) (hcreated : job.createdAt.Valid)
    (hnows : ∀ now ∈ nows, now.Valid) :
    (∀ t, job.startedAt = some t → job.createdAt.IsAfter 2 t ∧
      ∃ now ∈ nows, seconds (2 : Nat) ≤ now.since job.createdAt) ∧
    (∀ t, job.endedAt = some t → job.createdAt.IsAfter 5 t ∧
      ∃ now ∈ nows, seconds (5 : Nat) ≤ now.since job.createdAt) := by
  constructor
  · intro t ht
    by_cases hphase : job.phase = .pending
    · rw [startedAt_of_pending hphase] at ht
      cases ht
    · obtain ⟨u, hu, htold⟩ := h.startedAt hcreated hnows hphase
      cases ht.symm.trans hu
      exact htold
  · intro t ht
    by_cases hphase : job.phase = .finished
    · obtain ⟨u, hu, htold⟩ := h.endedAt hcreated hnows hphase
      cases ht.symm.trans hu
      exact htold
    · rw [endedAt_of_unfinished hphase] at ht
      cases ht

end Job

/-- A list is gone through without a failure if no item fails. -/
theorem mapM_eq_some {α β : Type} {f : α → Option β} {g : α → β} {items : List α}
    (h : ∀ x ∈ items, f x = some (g x)) : items.mapM f = some (items.map g) := by
  induction items with
  | nil => rfl
  | cons x items ih =>
    rw [List.mapM_cons, h x List.mem_cons_self, ih fun y hy => h y (List.mem_cons_of_mem x hy)]
    rfl

namespace Registry

/-- Drops the jobs whose lifetime is over, unless the age of a job is longer than a duration can
be. -/
def expire? (r : Registry) (now : Timestamp) : Option Registry := do
  let _ ← r.jobs.mapM fun job => now.since? job.createdAt
  return r.expire now

/-- Brings the jobs that satisfy a test up to date, with arithmetic that is checked. -/
def refresh? (r : Registry) (now : Timestamp) (which : Job → Bool) : Option Registry := do
  let jobs ← r.jobs.mapM fun job => if which job then job.advance? now else some job
  return { r with jobs := jobs }

/-- The record of the job with an id, with arithmetic that is checked. -/
def get? (r : Registry) (jobId : String) (now : Timestamp) :
    Option (Option JobRecord × Registry) := do
  let r ← (← r.expire? now).refresh? now (·.jobId = jobId)
  let found ← (r.jobs.find? (·.jobId = jobId)).mapM Job.snapshot?
  return (found, r)

/-- The records of all jobs, with arithmetic that is checked. -/
def list? (r : Registry) (now : Timestamp) : Option (List JobRecord × Registry) := do
  let r ← (← r.expire? now).refresh? now fun _ => true
  let records ← r.jobs.mapM Job.snapshot?
  return (records, r)

/-- Every job was created at a timestamp that exists, and its phase comes from such readings. -/
def Sound (r : Registry) : Prop :=
  ∀ job ∈ r.jobs, job.createdAt.Valid ∧
    ∃ nows, job.ReachedAt nows ∧ ∀ now ∈ nows, now.Valid

variable {r : Registry} {now : Timestamp}

theorem Sound.snapshot? (h : r.Sound) {job : Job} (hj : job ∈ r.jobs) :
    job.snapshot? = some job.snapshot := by
  obtain ⟨hcreated, nows, hreached, hnows⟩ := h job hj
  exact hreached.snapshot? hcreated hnows

theorem Sound.expire (h : r.Sound) (now : Timestamp) : (r.expire now).Sound :=
  fun job hj => h job ((r.expire_sublist now).subset hj)

theorem Sound.refresh (h : r.Sound) (hnow : now.Valid) (which : Job → Bool) :
    (r.refresh now which).Sound := by
  intro job' hj'
  obtain ⟨job, hj, rfl⟩ := List.mem_map.mp hj'
  obtain ⟨hcreated, nows, hreached, hnows⟩ := h job hj
  split
  · refine ⟨hcreated, nows ++ [now], hreached.advance now, fun u hu => ?_⟩
    rcases List.mem_append.mp hu with hu | hu
    · exact hnows u hu
    · exact List.mem_singleton.mp hu ▸ hnow
  · exact ⟨hcreated, nows, hreached, hnows⟩

theorem Sound.expire? (h : r.Sound) (hnow : now.Valid) : r.expire? now = some (r.expire now) := by
  have hages : r.jobs.mapM (fun job => now.since? job.createdAt) =
      some (r.jobs.map fun job => now.since job.createdAt) :=
    mapM_eq_some fun job hj => Timestamp.since?_of_valid hnow (h job hj).1
  rw [Registry.expire?, hages]
  rfl

theorem Sound.refresh? (h : r.Sound) (hnow : now.Valid) (which : Job → Bool) :
    r.refresh? now which = some (r.refresh now which) := by
  have hjobs : r.jobs.mapM (fun job => if which job then job.advance? now else some job) =
      some (r.jobs.map fun job => if which job then job.advance now else job) := by
    apply mapM_eq_some
    intro job hj
    split
    · exact Job.advance?_of_valid hnow (h job hj).1
    · rfl
  rw [Registry.refresh?, hjobs]
  rfl

theorem Sound.get? (h : r.Sound) (hnow : now.Valid) (jobId : String) :
    r.get? jobId now = some (r.get jobId now) := by
  have hsound := (h.expire now).refresh hnow (·.jobId = jobId)
  have hread : r.get? jobId now = do
      let found ← (((r.expire now).refresh now (·.jobId = jobId)).jobs.find?
        (·.jobId = jobId)).mapM Job.snapshot?
      return (found, (r.expire now).refresh now (·.jobId = jobId)) := by
    rw [Registry.get?, h.expire? hnow, Option.bind_eq_bind, Option.bind_some,
      (h.expire now).refresh? hnow]
    rfl
  rw [hread]
  cases hfind : ((r.expire now).refresh now (·.jobId = jobId)).jobs.find? (·.jobId = jobId) with
  | none => simp [Registry.get, hfind]
  | some job =>
    have hrecord := hsound.snapshot? (List.mem_of_find?_eq_some hfind)
    simp [Registry.get, hfind, hrecord]

theorem Sound.list? (h : r.Sound) (hnow : now.Valid) : r.list? now = some (r.list now) := by
  have hsound := (h.expire now).refresh hnow fun _ => true
  have hrecords : ((r.expire now).refresh now fun _ => true).jobs.mapM Job.snapshot? =
      some (((r.expire now).refresh now fun _ => true).jobs.map Job.snapshot) :=
    mapM_eq_some fun job hj => hsound.snapshot? hj
  rw [Registry.list?, h.expire? hnow, Option.bind_eq_bind, Option.bind_some,
    (h.expire now).refresh? hnow, Option.bind_eq_bind, Option.bind_some, hrecords]
  rfl

end Registry

/-- Whatever callers have done, the jobs in the registry come from readings that were made. -/
theorem Shared.Traced.sound {ι : Type} {s : Shared ι} (h : Traced s) (hnew : EntersNew s)
    (hvalid : ∀ event ∈ s.log, event.now.Valid) : s.state.registry.Sound := by
  intro job hj
  obtain ⟨earlier, now, later, hlog, hphase⟩ := h.courses job hj
  have hmem : ∀ event ∈ .entered job.origin now :: later, event ∈ s.log := by
    intro event hevent
    rw [hlog]
    exact List.mem_append_right earlier hevent
  have hentered := hmem _ List.mem_cons_self
  have hcreated : job.createdAt = now := hnew job.origin now hentered
  refine ⟨hcreated ▸ hvalid _ hentered,
    (later.filter (Event.reads job.jobId)).map Event.now, ?_, fun t ht => ?_⟩
  · rw [Job.ReachedAt, hphase, List.map_map]
    rfl
  · obtain ⟨event, hevent, rfl⟩ := List.mem_map.mp ht
    exact hvalid event (hmem event (List.mem_cons_of_mem _ (List.mem_filter.mp hevent).1))

/-- A job is created at a timestamp that exists and brought up to date at others, in any order.  No
duration between them is too long, and none that is added for its record leaves the range.  The
start and the end in the record are two and five seconds after the creation.  If none of the
readings lies inside a leap second, they are not after the latest of them.  So whatever callers have
done, no read of the registry fails. -/
theorem times_stay_in_range :
    (∀ (job : Job) (nows : List Timestamp), job.phase = .pending → job.createdAt.Valid →
      (∀ now ∈ nows, now.Valid) →
      let read := nows.foldl Job.advance job
      nows.foldlM Job.advance? job = some read ∧ read.snapshot? = some read.snapshot ∧
      (∀ t, read.snapshot.startedAt = some t → job.createdAt.IsAfter 2 t) ∧
      (∀ t, read.snapshot.endedAt = some t → job.createdAt.IsAfter 5 t) ∧
      ((∀ now ∈ nows, now.isLeap = false) → ∀ t,
        read.snapshot.startedAt = some t ∨ read.snapshot.endedAt = some t →
          ∃ last, Timestamp.IsLatest nows last ∧ last.before t = false)) ∧
    (∀ {ι : Type} [DecidableEq ι] (capacity : Nat) (lifetime : Duration) (clock : Clock)
      (moves : List (ι × Move)),
      let s := (Shared.start capacity lifetime clock : Shared ι).run moves
      (∀ event ∈ s.log, event.now.Valid) → ∀ now : Timestamp, now.Valid →
        (∀ jobId, s.state.registry.get? jobId now = some (s.state.registry.get jobId now)) ∧
        s.state.registry.list? now = some (s.state.registry.list now)) := by
  constructor
  · intro job nows hphase hcreated hnows read
    have horigin : job.ReachedAt [] := hphase
    obtain ⟨hfold, hreached, hsame⟩ := horigin.foldl hcreated nows hnows
    rw [List.nil_append] at hreached
    rw [← hsame] at hcreated
    obtain ⟨hstarted, hended⟩ := hreached.told hcreated hnows
    refine ⟨hfold, hreached.snapshot? hcreated hnows, fun t ht => ?_, fun t ht => ?_,
      fun hleap t ht => ?_⟩
    · exact hsame ▸ (hstarted t ht).1
    · exact hsame ▸ (hended t ht).1
    · have hregular : ∀ now ∈ nows, now.Regular := fun now hnow =>
        Timestamp.regular_of_valid (hnows now hnow) (hleap now hnow)
      rcases ht with ht | ht
      · obtain ⟨hafter, now, hnow, hpassed⟩ := hstarted t ht
        exact hafter.not_before_latest hcreated.nano (by decide) hregular hnow hpassed
      · obtain ⟨hafter, now, hnow, hpassed⟩ := hended t ht
        exact hafter.not_before_latest hcreated.nano (by decide) hregular hnow hpassed
  · intro ι _ capacity lifetime clock moves s hvalid now hnow
    have htraced := (Shared.traced_start (ι := ι) capacity lifetime clock).run moves
    have hnew : (Shared.start capacity lifetime clock : Shared ι).EntersNew := by
      intro _ _ hmem
      cases hmem
    have hsound := htraced.sound (hnew.run moves) hvalid
    exact ⟨hsound.get? hnow, hsound.list? hnow⟩

/-- A job that is created five seconds before the latest timestamp ends at that timestamp, though
the clock steps back again; one second more could not be added.  With the job in the registry, the
clock may show the first timestamp of all when it is looked up. -/
theorem times_stay_in_range_to_the_end :
    let created : Timestamp := ⟨Timestamp.lastDay, 86394, 999999999⟩
    let job := newJob 1 "P" created .faulted
    let read := [Timestamp.latest, created].foldl Job.advance job
    let first : Timestamp := ⟨Timestamp.firstDay, 0, 0⟩
    let s := (Shared.start 10 (seconds 60) (.held created) : Shared Unit).run
      [((), .takeNumber "P"), ((), .readClock created), ((), .roll .faulted), ((), .enter),
        ((), .seek "JOB-1001" .latest), ((), .lookUp)]
    created.Valid ∧ Timestamp.latest.Valid ∧ first.Valid ∧
      read.snapshot? = some read.snapshot ∧ created.IsAfter 5 .latest ∧
      read.snapshot.endedAt = some .latest ∧ created.add? (seconds 6) = none ∧
      read.snapshot.status = .faulted ∧
      s.state.registry.get? "JOB-1001" first = some (s.state.registry.get "JOB-1001" first) := by
  intro created job read first s
  have hcreated : created.Valid := ⟨by decide +kernel, by decide, by decide, by decide +kernel⟩
  have hlatest : Timestamp.latest.Valid :=
    ⟨by decide +kernel, by decide, by decide, by decide +kernel⟩
  have hfirst : first.Valid := ⟨by decide +kernel, by decide, by decide, by decide +kernel⟩
  have hnows : ∀ now ∈ [Timestamp.latest, created], now.Valid := by
    intro now hnow
    simp only [List.mem_cons, List.not_mem_nil, or_false] at hnow
    rcases hnow with rfl | rfl
    · exact hlatest
    · exact hcreated
  have hlog : s.log.map Event.now = [created, .latest] := by decide +kernel
  have hvalid : ∀ event ∈ s.log, event.now.Valid := by
    intro event hevent
    have hmem : event.now ∈ [created, .latest] := hlog ▸ List.mem_map_of_mem hevent
    simp only [List.mem_cons, List.not_mem_nil, or_false] at hmem
    rcases hmem with h | h
    · exact h ▸ hcreated
    · exact h ▸ hlatest
  obtain ⟨-, hread, -, hended, -⟩ :=
    times_stay_in_range.1 job [.latest, created] rfl hcreated hnows
  have hend : read.snapshot.endedAt = some .latest := by decide +kernel
  refine ⟨hcreated, hlatest, hfirst, hread, hended _ hend, hend, by decide +kernel,
    by decide +kernel, ?_⟩
  exact (times_stay_in_range.2 10 (seconds 60) (.held created) _ hvalid first hfirst).1 "JOB-1001"

end Simulation
end RobotDesk
