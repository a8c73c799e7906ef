import RobotDesk.Proofs.Interleaving

/-!
Looking jobs up and listing them at one time.

Both drop the jobs whose lifetime is over, and bring jobs up to date: the one that is sought, or all
of them.  What is up to date is not changed by another read at the same time, and whether a job is
kept does not depend on its phase.  So a job is found exactly if it is listed, in whatever phases
earlier reads have left the jobs, and neither read changes what the other answers.
-/
namespace RobotDesk.Simulation

open Time

namespace Registry

variable (r : Registry) (now : Timestamp)

/-- A job is kept as long as before when it is brought up to date. -/
theorem expire_refresh (which : Job → Bool) :
    (r.refresh now which).expire now = (r.expire now).refresh now which := by
  have hkeeps : (r.refresh now which).keeps now ∘
      (fun job => if which job then job.advance now else job) = r.keeps now := by
    funext job
    by_cases h : which job <;> simp [h, keeps, refresh]
  rw [expire, jobs_refresh, List.filter_map, hkeeps]
  rfl

theorem expire_expire : (r.expire now).expire now = r.expire now := by
  have hkeeps : (r.expire now).keeps now = r.keeps now := rfl
  rw [expire, hkeeps]
  simp [expire]

/-- After a read nothing is left to expire. -/
theorem expire_read (which : Job → Bool) :
    ((r.expire now).refresh now which).expire now = (r.expire now).refresh now which := by
  rw [expire_refresh, expire_expire]

/-- Bringing all jobs up to date covers what was done before at the same time. -/
theorem refresh_all_refresh (which : Job → Bool) :
    (r.refresh now which).refresh now (fun _ => true) = r.refresh now fun _ => true := by
  simp only [refresh, List.map_map]
  congr 1
  apply List.map_congr_left
  intro job _
  by_cases h : which job <;> simp [h, Job.advance_advance]

/-- Jobs that are all up to date stay as they are. -/
theorem refresh_refresh_all (which : Job → Bool) :
    (r.refresh now fun _ => true).refresh now which = r.refresh now fun _ => true := by
  simp only [refresh, List.map_map]
  congr 1
  apply List.map_congr_left
  intro job _
  by_cases h : which (job.advance now) <;> simp [h, Job.advance_advance]

/-- A listing does not show that a job was looked up before. -/
theorem list_get (jobId : String) : (r.get jobId now).2.list now = r.list now := by
  simp only [get, list, expire_read, refresh_all_refresh]

/-- A lookup does not show that the jobs were listed before, and changes nothing after that. -/
theorem get_list (jobId : String) :
    (r.list now).2.get jobId now = ((r.get jobId now).1, (r.list now).2) := by
  apply Prod.ext
  · have hsame : ((fun job : Job => (job.advance now).snapshot) ∘
        fun job : Job => job.advance now) = fun job : Job => (job.advance now).snapshot := by
      funext job
      exact congrArg Job.snapshot (job.advance_advance now)
    rw [get_fst, get_fst]
    simp only [list, expire_read, jobs_refresh, if_true, List.find?_map, Option.map_map, hsame]
    rfl
  · simp only [get, list, expire_read, refresh_refresh_all]

variable {r}

theorem jobId_ne_expire (hd : r.jobs.Pairwise fun a b => a.jobId ≠ b.jobId) :
    (r.expire now).jobs.Pairwise fun a b => a.jobId ≠ b.jobId :=
  hd.sublist (r.expire_sublist now)

/-- A record is found under an id exactly if it is listed with that id. -/
theorem get_eq_some_iff (hd : r.jobs.Pairwise fun a b => a.jobId ≠ b.jobId) (id : String)
    (record : JobRecord) :
    (r.get id now).1 = some record ↔ record ∈ (r.list now).1 ∧ record.jobId = id := by
  rw [get_fst, list_fst, Option.map_eq_some_iff, List.mem_map]
  constructor
  · rintro ⟨job, hfind, rfl⟩
    have hid : job.jobId = id := by simpa using List.find?_some hfind
    exact ⟨⟨job, List.mem_of_find?_eq_some hfind, rfl⟩, hid⟩
  · rintro ⟨⟨job, hj, rfl⟩, rfl⟩
    exact ⟨job, find?_jobId (jobId_ne_expire now hd) hj, rfl⟩

theorem nodup_list (hd : r.jobs.Pairwise fun a b => a.jobId ≠ b.jobId) :
    ((r.list now).1.map JobRecord.jobId).Nodup := by
  rw [list_fst, List.map_map, List.Nodup, List.pairwise_map]
  exact jobId_ne_expire now hd

end Registry

namespace State

/-- The filter that names nothing accepts every job. -/
theorem list_all (s : State) (now : Timestamp) : (s.list {} now).1 = (s.registry.list now).1 := by
  rw [list_fst, List.filter_eq_self]
  intro record _
  rfl

theorem get_eq_ok_iff (s : State) (id : String) (now : Timestamp) (record : JobRecord) :
    (s.get id now).1 = .ok record ↔ (s.registry.get id now).1 = some record := by
  rw [get_fst]
  cases (s.registry.get id now).1 <;> simp

theorem get_eq_error_iff (s : State) (id : String) (now : Timestamp) :
    (s.get id now).1 = .error (jobNotFound id) ↔ (s.registry.get id now).1 = none := by
  rw [get_fst]
  cases (s.registry.get id now).1 <;> simp

theorem get_fst_congr {s s' : State} {id : String} {now : Timestamp}
    (h : (s.registry.get id now).1 = (s'.registry.get id now).1) :
    (s.get id now).1 = (s'.get id now).1 := by
  rw [get_fst, get_fst, h]

end State

/-- Looking up and listing agree in every state that callers can bring about, whatever their clocks
have shown.  The jobs that are listed have different ids; a record is found under an id exactly if
it is listed with that id, and nothing is found exactly if no job is; a filter selects from the
list of all jobs.  To look a job up before or after the jobs are listed, at the same time, changes
neither answer. -/
theorem lookup_agrees_with_listing {ι : Type} [DecidableEq ι] (capacity : Nat) (lifetime : Duration)
    (clock : Clock) (moves : List (ι × Move)) (now : Timestamp) :
    let s := ((Shared.start capacity lifetime clock : Shared ι).run moves).state
    let all := (s.list {} now).1
    (all.map JobRecord.jobId).Nodup ∧
    (∀ id r, (s.get id now).1 = .ok r ↔ r ∈ all ∧ r.jobId = id) ∧
    (∀ id, (s.get id now).1 = .error (.notFound ("Job not found: " ++ id)) ↔
      ∀ r ∈ all, r.jobId ≠ id) ∧
    (∀ filter, (s.list filter now).1 = all.filter filter.accepts) ∧
    (∀ id filter, ((s.get id now).2.list filter now).1 = (s.list filter now).1 ∧
      ((s.list filter now).2.get id now).1 = (s.get id now).1) := by
  intro s all
  have hd : s.registry.jobs.Pairwise fun a b => a.jobId ≠ b.jobId :=
    ((Shared.inv_start capacity lifetime clock).run moves).jobId_ne
  have hall : all = (s.registry.list now).1 := s.list_all now
  have hfound (id : String) (r : JobRecord) :
      (s.get id now).1 = .ok r ↔ r ∈ all ∧ r.jobId = id := by
    rw [State.get_eq_ok_iff, hall, Registry.get_eq_some_iff now hd]
  refine ⟨?_, hfound, fun id => ?_, fun filter => ?_, fun id filter => ⟨?_, ?_⟩⟩
  · rw [hall]
    exact Registry.nodup_list now hd
  · change (s.get id now).1 = .error (jobNotFound id) ↔ _
    rw [State.get_eq_error_iff, Option.eq_none_iff_forall_ne_some]
    simp only [ne_eq, Registry.get_eq_some_iff now hd, ← hall]
    exact ⟨fun h r hr hid => h r ⟨hr, hid⟩, fun h r hr => h r hr.1 hr.2⟩
  · rw [hall, State.list_fst]
  · rw [State.list_fst, State.list_fst]
    change ((s.registry.get id now).2.list now).1.filter _ = _
    rw [Registry.list_get]
  · apply State.get_fst_congr
    change ((s.registry.list now).2.get id now).1 = _
    rw [Registry.get_list]

end RobotDesk.Simulation
