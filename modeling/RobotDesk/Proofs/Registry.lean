import RobotDesk.Proofs.Instant
import RobotDesk.Proofs.Lifecycle
import RobotDesk.Simulation.Orchestrator

/-!
What the operations of the registry do to the jobs in it.

Looking a job up and listing the jobs drop those whose lifetime is over and bring others up to date;
beyond that the jobs stay as they were created.  To take a job in also drops the oldest job when
there is no room.
-/
namespace RobotDesk.Simulation

open Time

/-- Different numbers have different ids. -/
theorem jobId_inj {m n : Nat} : jobId m = jobId n ↔ m = n := by
  constructor
  · intro h
    have hl : (1000 + m).repr.toList = (1000 + n).repr.toList := by
      have h' := congrArg String.toList h
      simpa [jobId] using h'
    rw [Nat.toList_repr, Nat.toList_repr] at hl
    have hd := congrArg (Nat.ofDigitChars 10 · 0) hl
    simp only [Nat.ofDigitChars_ten_toDigits] at hd
    omega
  · exact fun h => h ▸ rfl

theorem isBlankText_jobId (number : Nat) : Text.isBlankText (jobId number) = false := by
  have hj : Text.isBlank 'J' = false := by decide
  simp [Text.isBlankText, jobId, hj]

/-- Older jobs were created before, or together and with a smaller number. -/
theorem Job.older_iff (a b : Job) : a.older b = true ↔
    a.createdAt.compare b.createdAt = .lt ∨ a.createdAt = b.createdAt ∧ a.number < b.number := by
  unfold older
  cases hc : a.createdAt.compare b.createdAt with
  | lt => simp
  | eq => simp [(Timestamp.compare_eq_eq_iff _ _).mp hc]
  | gt =>
    have hne : a.createdAt ≠ b.createdAt := by
      intro he
      rw [(Timestamp.compare_eq_eq_iff _ _).mpr he] at hc
      cases hc
    simp [hne]

/-- The same order, part by part. -/
theorem Job.older_iff_lex (a b : Job) : a.older b = true ↔
    a.createdAt.day < b.createdAt.day ∨ a.createdAt.day = b.createdAt.day ∧
      (a.createdAt.second < b.createdAt.second ∨ a.createdAt.second = b.createdAt.second ∧
        (a.createdAt.nano < b.createdAt.nano ∨ a.createdAt.nano = b.createdAt.nano ∧
          a.number < b.number)) := by
  have he : a.createdAt = b.createdAt ↔ a.createdAt.day = b.createdAt.day ∧
      a.createdAt.second = b.createdAt.second ∧ a.createdAt.nano = b.createdAt.nano := by
    cases a.createdAt
    cases b.createdAt
    simp
  rw [older_iff, Timestamp.compare_eq_lt_iff, he]
  omega

theorem Job.older_asymm {a b : Job} (h : a.older b = true) : b.older a = false := by
  rw [← Bool.not_eq_true]
  rw [older_iff_lex] at *
  omega

theorem Job.not_older_trans {a b c : Job} (h₁ : b.older a = false) (h₂ : c.older b = false) :
    c.older a = false := by
  rw [← Bool.not_eq_true] at *
  rw [older_iff_lex] at *
  omega

/-- Of two jobs with different numbers, one is older. -/
theorem Job.older_of_not_older {a b : Job} (hn : a.number ≠ b.number) (h : b.older a = false) :
    a.older b = true := by
  rw [← Bool.not_eq_true] at h
  rw [older_iff_lex] at *
  omega

theorem Job.older_of_before {a b : Job} (ht : b.createdAt.before a.createdAt = false)
    (hn : a.number < b.number) : a.older b = true := by
  simp only [Timestamp.before, decide_eq_false_iff_not] at ht
  rw [older_iff]
  cases hc : a.createdAt.compare b.createdAt with
  | lt => exact .inl rfl
  | eq => exact .inr ⟨(Timestamp.compare_eq_eq_iff _ _).mp hc, hn⟩
  | gt => exact absurd ((Timestamp.compare_eq_gt_iff _ _).mp hc) ht

theorem oldest?_eq_none_iff (jobs : List Job) : oldest? jobs = none ↔ jobs = [] := by
  cases jobs with
  | nil => simp [oldest?]
  | cons job rest =>
    simp only [oldest?, reduceCtorEq, iff_false]
    split
    · simp
    · split <;> simp

theorem oldest?_mem {jobs : List Job} {victim : Job} (h : oldest? jobs = some victim) :
    victim ∈ jobs := by
  induction jobs generalizing victim with
  | nil => simp [oldest?] at h
  | cons job rest ih =>
    simp only [oldest?] at h
    split at h
    · simp_all
    · rename_i other ho
      split at h
      · exact List.mem_cons_of_mem _ (ih (by simp_all))
      · simp_all

/-- No job is older than the one that goes first. -/
theorem oldest?_least {jobs : List Job} {victim : Job} (h : oldest? jobs = some victim) :
    ∀ job ∈ jobs, job.older victim = false := by
  induction jobs generalizing victim with
  | nil => simp [oldest?] at h
  | cons first rest ih =>
    have hself : ∀ a : Job, a.older a = false := by
      intro a
      rw [← Bool.not_eq_true, Job.older_iff_lex]
      omega
    simp only [oldest?] at h
    split at h
    · rename_i ho
      obtain rfl := (oldest?_eq_none_iff rest).mp ho
      simp_all
    · rename_i other ho
      have hleast := ih ho
      split at h
      · rename_i hold
        obtain rfl : other = victim := by simpa using h
        intro job hj
        rcases List.mem_cons.mp hj with rfl | hj
        · exact Job.older_asymm hold
        · exact hleast job hj
      · rename_i hold
        obtain rfl : first = victim := by simpa using h
        intro job hj
        rcases List.mem_cons.mp hj with rfl | hj
        · exact hself job
        · exact Job.not_older_trans (by simpa using hold) (hleast job hj)

/-- A first job that no other is older than goes first. -/
theorem oldest?_cons {first : Job} {rest : List Job}
    (h : ∀ job ∈ rest, job.older first = false) : oldest? (first :: rest) = some first := by
  simp only [oldest?]
  split
  · rfl
  · rename_i other ho
    rw [h other (oldest?_mem ho)]
    simp

/-- Among jobs with different ids, each is found under its own. -/
theorem find?_jobId {jobs : List Job} (hd : jobs.Pairwise fun a b => a.jobId ≠ b.jobId) {job : Job}
    (hj : job ∈ jobs) : jobs.find? (·.jobId = job.jobId) = some job := by
  induction jobs with
  | nil => simp at hj
  | cons first rest ih =>
    obtain ⟨hfirst, hrest⟩ := List.pairwise_cons.mp hd
    rcases List.mem_cons.mp hj with rfl | hj
    · simp
    · have hne : first.jobId ≠ job.jobId := hfirst job hj
      simpa [hne] using ih hrest hj

theorem eq_of_jobId {jobs : List Job} (hd : jobs.Pairwise fun a b => a.jobId ≠ b.jobId) {a b : Job}
    (ha : a ∈ jobs) (hb : b ∈ jobs) (h : a.jobId = b.jobId) : a = b := by
  have hfind := find?_jobId hd ha
  rw [h, find?_jobId hd hb] at hfind
  exact (Option.some.inj hfind).symm

namespace Registry

/-- Without room, some job that none is older than is dropped. -/
theorem makeRoom_cases (r : Registry) :
    r.jobs.length < r.room ∧ r.makeRoom = r ∨
    r.room ≤ r.jobs.length ∧ ∃ victim ∈ r.jobs, (∀ job ∈ r.jobs, job.older victim = false) ∧
      r.makeRoom = r.remove victim.jobId := by
  have hroom : 1 ≤ r.room := by simp only [room]; omega
  unfold makeRoom
  by_cases h : r.jobs.length < r.room
  · exact .inl ⟨h, if_pos h⟩
  · refine .inr ⟨by omega, ?_⟩
    rw [if_neg h]
    split
    · rename_i ho
      rw [(oldest?_eq_none_iff _).mp ho, List.length_nil] at h
      omega
    · rename_i victim ho
      exact ⟨victim, oldest?_mem ho, oldest?_least ho, rfl⟩

/-- With the oldest job first, it is the first job that makes room. -/
theorem jobs_makeRoom_of_ordered {r : Registry} (ho : r.jobs.Pairwise fun a b => a.older b = true)
    (hd : r.jobs.Pairwise fun a b => a.jobId ≠ b.jobId) :
    r.makeRoom.jobs = if r.jobs.length < r.room then r.jobs else r.jobs.tail := by
  unfold makeRoom
  split
  · rfl
  cases hjobs : r.jobs with
  | nil => simp [oldest?, hjobs]
  | cons first rest =>
    rw [hjobs] at ho hd
    obtain ⟨ho, -⟩ := List.pairwise_cons.mp ho
    obtain ⟨hd, -⟩ := List.pairwise_cons.mp hd
    have hfirst : oldest? (first :: rest) = some first :=
      oldest?_cons fun job hj => Job.older_asymm (ho job hj)
    rw [hfirst]
    simp only [remove, hjobs, List.tail_cons]
    rw [List.filter_cons_of_neg (by simp), List.filter_eq_self]
    intro job hj
    simpa using (hd job hj).symm

@[simp] theorem room_expire (r : Registry) (now : Timestamp) : (r.expire now).room = r.room := rfl

@[simp] theorem capacity_makeRoom (r : Registry) : r.makeRoom.capacity = r.capacity := by
  rcases makeRoom_cases r with ⟨-, h⟩ | ⟨-, victim, -, -, h⟩ <;> rw [h]
  rfl

@[simp] theorem lifetime_makeRoom (r : Registry) : r.makeRoom.lifetime = r.lifetime := by
  rcases makeRoom_cases r with ⟨-, h⟩ | ⟨-, victim, -, -, h⟩ <;> rw [h]
  rfl

theorem expire_sublist (r : Registry) (now : Timestamp) :
    (r.expire now).jobs.Sublist r.jobs := List.filter_sublist

theorem remove_sublist (r : Registry) (jobId : String) :
    (r.remove jobId).jobs.Sublist r.jobs := List.filter_sublist

theorem makeRoom_sublist (r : Registry) : r.makeRoom.jobs.Sublist r.jobs := by
  rcases makeRoom_cases r with ⟨-, h⟩ | ⟨-, victim, -, -, h⟩
  · simp [h]
  · rw [h]
    exact r.remove_sublist victim.jobId

theorem length_makeRoom_lt {r : Registry} (h : r.jobs.length ≤ r.room) :
    r.makeRoom.jobs.length < r.room := by
  rcases makeRoom_cases r with ⟨hl, hr⟩ | ⟨-, victim, hv, -, hr⟩
  · rwa [hr]
  · rw [hr]
    -- the victim itself is not in what is left
    have hlt : (r.remove victim.jobId).jobs.length < r.jobs.length := by
      rw [remove, List.length_filter_lt_length_iff_exists]
      exact ⟨victim, hv, by simp⟩
    omega

theorem jobs_insert (r : Registry) (job : Job) (now : Timestamp) :
    (r.insert job now).jobs = ((r.expire now).makeRoom.remove job.jobId).jobs ++ [job] := rfl

@[simp] theorem capacity_insert (r : Registry) (job : Job) (now : Timestamp) :
    (r.insert job now).capacity = r.capacity := capacity_makeRoom (r.expire now)

@[simp] theorem lifetime_insert (r : Registry) (job : Job) (now : Timestamp) :
    (r.insert job now).lifetime = r.lifetime := lifetime_makeRoom (r.expire now)

/-- A job with a new id is put behind those that are left. -/
theorem jobs_insert_of_new {r : Registry} {job : Job}
    (h : ∀ other ∈ r.jobs, other.jobId ≠ job.jobId) (now : Timestamp) :
    (r.insert job now).jobs = (r.expire now).makeRoom.jobs ++ [job] := by
  have hsub := ((r.expire now).makeRoom_sublist).trans (r.expire_sublist now)
  rw [jobs_insert, remove, List.filter_eq_self.mpr]
  intro other ho
  simpa using h other (hsub.subset ho)

/-- Jobs that are there stay, unless their lifetime is over or they make room. -/
theorem kept_sublist (r : Registry) (job : Job) (now : Timestamp) :
    ∃ kept, kept.Sublist r.jobs ∧ (r.insert job now).jobs = kept ++ [job] :=
  ⟨_, ((remove_sublist _ _).trans (makeRoom_sublist _)).trans (r.expire_sublist now), rfl⟩

theorem length_insert_le {r : Registry} (h : r.jobs.length ≤ r.room) (job : Job) (now : Timestamp) :
    (r.insert job now).jobs.length ≤ r.room := by
  have hle : (r.expire now).jobs.length ≤ r.room :=
    Nat.le_trans (r.expire_sublist now).length_le h
  have hlt := length_makeRoom_lt (r := r.expire now) hle
  have hrem := ((r.expire now).makeRoom.remove_sublist job.jobId).length_le
  rw [jobs_insert, List.length_append, List.length_singleton]
  rw [room_expire] at hlt
  omega

/-- Expiry looks at nothing that changes in a job. -/
theorem origins_expire (r : Registry) (now : Timestamp) :
    (r.expire now).jobs.map Job.origin = (r.jobs.map Job.origin).filter (r.keeps now) := by
  rw [List.filter_map]
  rfl

theorem jobs_refresh (r : Registry) (now : Timestamp) (which : Job → Bool) :
    (r.refresh now which).jobs = r.jobs.map fun job => if which job then job.advance now else job :=
  rfl

theorem origins_refresh (r : Registry) (now : Timestamp) (which : Job → Bool) :
    (r.refresh now which).jobs.map Job.origin = r.jobs.map Job.origin := by
  rw [jobs_refresh, List.map_map]
  apply List.map_congr_left
  intro job _
  by_cases h : which job <;> simp [h]

/-- To bring the job with an id up to date does not change where it is found. -/
theorem find?_refresh (r : Registry) (jobId : String) (now : Timestamp) :
    (r.refresh now (·.jobId = jobId)).jobs.find? (·.jobId = jobId) =
      (r.jobs.find? (·.jobId = jobId)).map (·.advance now) := by
  have hp : ((fun job : Job => decide (job.jobId = jobId)) ∘
      fun job => if decide (job.jobId = jobId) = true then job.advance now else job) =
      fun job => decide (job.jobId = jobId) := by
    funext job
    by_cases h : job.jobId = jobId <;> simp [h]
  rw [jobs_refresh, List.find?_map, hp]
  cases hf : r.jobs.find? (·.jobId = jobId) with
  | none => rfl
  | some job =>
    have hj : job.jobId = jobId := by simpa using List.find?_some hf
    simp [hj]

/-- To look a job up is to bring the one with its id up to date. -/
theorem get_fst (r : Registry) (jobId : String) (now : Timestamp) :
    (r.get jobId now).1 =
      ((r.expire now).jobs.find? (·.jobId = jobId)).map fun job => (job.advance now).snapshot := by
  simp only [get]
  rw [find?_refresh, Option.map_map]
  rfl

theorem find?_expire {r : Registry} {jobId : String} {now : Timestamp} {job : Job}
    (hfind : r.jobs.find? (·.jobId = jobId) = some job) (hkeeps : r.keeps now job = true) :
    (r.expire now).jobs.find? (·.jobId = jobId) = some job := by
  obtain ⟨hid, before, after, hjobs, hbefore⟩ := List.find?_eq_some_iff_append.mp hfind
  refine List.find?_eq_some_iff_append.mpr
    ⟨hid, before.filter (r.keeps now), after.filter (r.keeps now), ?_, ?_⟩
  · rw [expire, hjobs, List.filter_append, List.filter_cons_of_pos hkeeps]
  · exact fun other ho => hbefore other (List.mem_filter.mp ho).1

/-- A job that is found and still kept is found again, brought up to date. -/
theorem find?_get {r : Registry} {jobId : String} {now : Timestamp} {job : Job}
    (hfind : r.jobs.find? (·.jobId = jobId) = some job) (hkeeps : r.keeps now job = true) :
    (r.get jobId now).1 = some (job.advance now).snapshot ∧
      (r.get jobId now).2.jobs.find? (·.jobId = jobId) = some (job.advance now) := by
  have hexpire := find?_expire hfind hkeeps
  constructor
  · rw [get_fst, hexpire]
    rfl
  · exact (find?_refresh _ _ _).trans (by rw [hexpire]; rfl)

/-- A job that has been taken in is found under its id. -/
theorem find?_insert (r : Registry) (job : Job) (now : Timestamp) :
    (r.insert job now).jobs.find? (·.jobId = job.jobId) = some job := by
  refine List.find?_eq_some_iff_append.mpr ⟨by simp, _, [], r.jobs_insert job now, ?_⟩
  intro other ho
  simpa using ((mem_jobs_remove _ _ _).mp ho).2

theorem list_fst (r : Registry) (now : Timestamp) :
    (r.list now).1 = (r.expire now).jobs.map fun job => (job.advance now).snapshot := by
  simp [list, jobs_refresh]

/-- A job leaves when its lifetime is over, or when it is the oldest and room has to be made. -/
theorem mem_insert_or_leaves {r : Registry} {job : Job} (new : Job) (now : Timestamp)
    (hid : ∀ other ∈ r.jobs, other.jobId = jobId other.number)
    (hd : r.jobs.Pairwise fun a b => a.jobId ≠ b.jobId)
    (hnew : ∀ other ∈ r.jobs, other.jobId ≠ new.jobId) (hj : job ∈ r.jobs) :
    job ∈ (r.insert new now).jobs ∨ r.lifetime ≤ now.since job.createdAt ∨
      r.room ≤ (r.expire now).jobs.length ∧ job ∈ (r.expire now).jobs ∧
        ∀ other ∈ (r.expire now).jobs, other ≠ job → job.older other = true := by
  by_cases hk : r.keeps now job = true
  · have he : job ∈ (r.expire now).jobs := (r.mem_jobs_expire now job).mpr ⟨hj, hk⟩
    rw [jobs_insert_of_new hnew]
    rcases (r.expire now).makeRoom_cases with ⟨-, hroom⟩ | ⟨hfull, victim, hv, hleast, hroom⟩
    · rw [hroom]
      exact .inl (List.mem_append_left _ he)
    · rw [hroom]
      by_cases hvictim : job = victim
      · subst hvictim
        refine .inr (.inr ⟨hfull, he, fun other ho hne => ?_⟩)
        have hother := (r.expire_sublist now).subset ho
        have hnumber : job.number ≠ other.number := by
          intro hn
          apply hne
          exact eq_of_jobId hd hother hj (by rw [hid other hother, hid job hj, hn])
        exact Job.older_of_not_older hnumber (hleast other ho)
      · have hne : job.jobId ≠ victim.jobId := fun h =>
          hvictim (eq_of_jobId hd hj ((r.expire_sublist now).subset hv) h)
        exact .inl (List.mem_append_left _ ((mem_jobs_remove _ _ _).mpr ⟨he, hne⟩))
  · have hover : ¬ now.since job.createdAt < r.lifetime := fun h => hk (decide_eq_true h)
    exact .inr (.inl (Int.not_lt.mp hover))

end Registry

namespace State

theorem get_fst (s : State) (jobId : String) (now : Timestamp) : (s.get jobId now).1 =
    match (s.registry.get jobId now).1 with
    | some record => .ok record
    | none => .error (jobNotFound jobId) := rfl

theorem get_snd (s : State) (jobId : String) (now : Timestamp) : (s.get jobId now).2 =
    { s with registry := (s.registry.expire now).refresh now (·.jobId = jobId) } := rfl

theorem list_fst (s : State) (filter : JobFilter) (now : Timestamp) :
    (s.list filter now).1 = (s.registry.list now).1.filter filter.accepts := rfl

theorem list_snd (s : State) (filter : JobFilter) (now : Timestamp) : (s.list filter now).2 =
    { s with registry := (s.registry.expire now).refresh now fun _ => true } := rfl

end State
end RobotDesk.Simulation
