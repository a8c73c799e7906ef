import RobotDesk.Proofs.Registry

/-!
The simulation as a sliding window.

Calls are made one after the other, at readings of a clock that never goes back.  The registry then
holds those of the last jobs started that fit into it and whose lifetime is not over, and what is
answered about a job depends only on how it was started and on the time since.  That earlier reads
have dropped jobs and moved phases cannot be told from the answers.
-/
namespace RobotDesk.Simulation

open Time

/-- What can be asked about jobs. -/
inductive Request where
  | start (processKey : String)
  | get (jobId : String)
  | list (filter : JobFilter)
deriving Repr

/-- A request, and what the clock showed when it was made. -/
structure Ask where
  request : Request
  now : Timestamp
deriving Repr

namespace State

/-- The simulation after one request. -/
def perform (outcome : Nat → Outcome) (s : State) (a : Ask) : State :=
  match a.request with
  | .start processKey => (s.start processKey outcome a.now).2
  | .get jobId => (s.get jobId a.now).2
  | .list filter => (s.list filter a.now).2

/-- The simulation after some requests. -/
def after (outcome : Nat → Outcome) (s : State) (history : List Ask) : State :=
  history.foldl (perform outcome) s

end State

/-- The call that makes a request. -/
def Request.call : Request → Call
  | .start processKey => .startJob { processKey := processKey }
  | .get jobId => .getJob jobId
  | .list filter => .listJobs filter

/-- The simulation serves the calls of a request at what its clock shows. -/
theorem state_serve (outcome : Nat → Outcome) (s : State) (request : Request) (elapsed : Nat) :
    ((orchestrator outcome).serve request.call elapsed s).state =
      s.perform outcome ⟨request, s.clock.read elapsed⟩ := by
  cases request <;> rfl

/-- The process key and the time of a start. -/
def Ask.start? (a : Ask) : Option (String × Timestamp) :=
  match a.request with
  | .start processKey => some (processKey, a.now)
  | .get _ | .list _ => none

/-- The starts among some requests. -/
def starts (history : List Ask) : List (String × Timestamp) := history.filterMap Ask.start?

/-- The jobs that some starts create. -/
def created (outcome : Nat → Outcome) (starts : List (String × Timestamp)) : List Job :=
  starts.mapIdx fun i start => newJob (i + 1) start.1 start.2 (outcome (i + 1))

theorem created_concat (outcome : Nat → Outcome) (pre : List (String × Timestamp)) (key : String)
    (time : Timestamp) : created outcome (pre ++ [(key, time)]) =
      created outcome pre ++ [newJob (pre.length + 1) key time (outcome (pre.length + 1))] := by
  simp [created]

@[simp] theorem length_created (outcome : Nat → Outcome) (pre : List (String × Timestamp)) :
    (created outcome pre).length = pre.length := by
  simp [created]

/-- The jobs that were created are numbered from one on. -/
theorem mem_created_iff (outcome : Nat → Outcome) (pre : List (String × Timestamp)) (job : Job) :
    job ∈ created outcome pre ↔ ∃ k key time, 1 ≤ k ∧ pre[k - 1]? = some (key, time) ∧
      job = newJob k key time (outcome k) := by
  simp only [created, List.mem_iff_getElem?, List.getElem?_mapIdx, Option.map_eq_some_iff]
  constructor
  · rintro ⟨i, ⟨key, time⟩, hi, rfl⟩
    exact ⟨i + 1, key, time, by omega, by simpa using hi, rfl⟩
  · rintro ⟨k, key, time, hk, hi, rfl⟩
    refine ⟨k - 1, (key, time), hi, ?_⟩
    rw [Nat.sub_add_cancel hk]

/-- Readings of a clock that never goes back, outside leap seconds. -/
structure Steady (readings : List Timestamp) : Prop where
  regular : ∀ t ∈ readings, t.Regular
  ordered : readings.Pairwise fun a b => b.before a = false

instance (readings : List Timestamp) : Decidable (Steady readings) :=
  decidable_of_iff ((∀ t ∈ readings, t.Regular) ∧ readings.Pairwise fun a b => b.before a = false)
    ⟨fun h => ⟨h.1, h.2⟩, fun h => ⟨h.regular, h.ordered⟩⟩

theorem steady_append_iff (past : List Timestamp) (now : Timestamp) :
    Steady (past ++ [now]) ↔
      Steady past ∧ now.Regular ∧ ∀ t ∈ past, now.before t = false := by
  constructor
  · intro h
    obtain ⟨hp, -, hl⟩ := List.pairwise_append.mp h.ordered
    exact ⟨⟨fun t ht => h.regular t (by simp [ht]), hp⟩, h.regular now (by simp),
      fun t ht => hl t ht now (by simp)⟩
  · rintro ⟨hp, hn, hl⟩
    constructor
    · intro t ht
      rcases List.mem_append.mp ht with ht | ht
      · exact hp.regular t ht
      · rwa [List.mem_singleton.mp ht]
    · rw [List.pairwise_append]
      exact ⟨hp.ordered, List.pairwise_singleton _ _, fun t ht u hu => by
        rw [List.mem_singleton.mp hu]
        exact hl t ht⟩

theorem Steady.sublist {readings part : List Timestamp} (h : Steady readings)
    (hp : part.Sublist readings) : Steady part :=
  ⟨fun t ht => h.regular t (hp.subset ht), h.ordered.sublist hp⟩

/-- Jobs that were created while a clock never went back stand with the oldest first. -/
theorem created_ordered (outcome : Nat → Outcome) {pre : List (String × Timestamp)}
    (h : Steady (pre.map Prod.snd)) :
    (created outcome pre).Pairwise fun a b => b.createdAt.before a.createdAt = false ∧
      a.number < b.number := by
  rw [List.pairwise_iff_getElem]
  intro i j hi hj hij
  have hi' : i < (pre.map Prod.snd).length := by simpa using hi
  have hj' : j < (pre.map Prod.snd).length := by simpa using hj
  have ht := List.pairwise_iff_getElem.mp h.ordered i j hi' hj' hij
  simp only [List.getElem_map] at ht
  simp only [created, List.getElem_mapIdx, newJob]
  exact ⟨ht, by omega⟩

/-- Whether the lifetime of a job is not over. -/
def Job.alive (lifetime : Duration) (now : Timestamp) (job : Job) : Bool :=
  now.since job.createdAt < lifetime

theorem Registry.keeps_eq_alive (r : Registry) (now : Timestamp) :
    r.keeps now = Job.alive r.lifetime now := rfl

/-- The jobs that are kept: of the last ones that fit, those whose lifetime is not over. -/
def window (capacity : Nat) (lifetime : Duration) (now : Timestamp) (log : List Job) : List Job :=
  (log.drop (log.length - max capacity 1)).filter (Job.alive lifetime now)

/-- Sliding a window by one.  The entries that pass the test `keep` of the time before stand behind
those that do not, and `keep'` is the stricter test of a later time. -/
theorem slide {α : Type} (keep keep' : α → Bool) (log : List α) {room : Nat} (hroom : 1 ≤ room)
    (hstrict : ∀ x ∈ log, keep' x = true → keep x = true)
    (hordered : log.Pairwise fun x y => keep x = true → keep y = true) :
    let kept := (log.drop (log.length - room)).filter keep
    (if kept.length < room then kept else kept.tail).filter keep' =
      (log.drop (log.length + 1 - room)).filter keep' := by
  intro kept
  have hfilter : ∀ part : List α, part.Sublist log →
      (part.filter keep).filter keep' = part.filter keep' := by
    intro part hpart
    rw [List.filter_filter]
    apply List.filter_congr
    intro x hx
    have hx' := hstrict x (hpart.subset hx)
    cases hk : keep' x <;> simp_all
  by_cases hn : log.length < room
  · -- everything still fits
    have hle : kept.length < room := by
      have h := List.length_filter_le keep (log.drop (log.length - room))
      rw [List.length_drop] at h
      exact Nat.lt_of_le_of_lt h (by omega)
    rw [if_pos hle, hfilter _ (List.drop_sublist _ _)]
    congr 2
    omega
  · have hnext : log.length + 1 - room = (log.length - room) + 1 := by omega
    have hdrop := List.drop_eq_getElem_cons (i := log.length - room) (l := log) (by omega)
    have hlen : (log.drop (log.length - room)).length = room := by
      rw [List.length_drop]
      omega
    rw [hnext]
    have hrest := List.drop_sublist (log.length - room + 1) log
    have hwhole := List.drop_sublist (log.length - room) log
    generalize log[log.length - room] = first at hdrop
    generalize log.drop (log.length - room + 1) = rest at hdrop hrest ⊢
    rw [hdrop] at hwhole hlen
    have hfirst := (List.pairwise_cons.mp (hordered.sublist hwhole)).1
    by_cases hk : keep first = true
    · -- the first entry is kept, and so are all that follow it: the window is full
      have hall : kept = first :: rest := by
        change (log.drop (log.length - room)).filter keep = _
        rw [hdrop, List.filter_eq_self]
        intro x hx
        rcases List.mem_cons.mp hx with rfl | hx
        · exact hk
        · exact hfirst x hx hk
      rw [hall, if_neg (by omega), List.tail_cons]
    · -- the first entry is gone already, which leaves room for one more
      have hgone : kept = rest.filter keep := by
        change (log.drop (log.length - room)).filter keep = _
        rw [hdrop, List.filter_cons_of_neg hk]
      have hle := List.length_filter_le keep rest
      rw [List.length_cons] at hlen
      rw [hgone, if_pos (by omega), hfilter rest hrest]

/-- The window one job further on. -/
theorem window_concat (capacity : Nat) (lifetime : Duration) {now later : Timestamp}
    {log : List Job} (job : Job)
    (hstrict : ∀ x ∈ log, x.alive lifetime later = true → x.alive lifetime now = true)
    (hordered : log.Pairwise fun x y => x.alive lifetime now = true → y.alive lifetime now = true) :
    ((let kept := window capacity lifetime now log
      if kept.length < max capacity 1 then kept else kept.tail) ++ [job]).filter
        (Job.alive lifetime later) = window capacity lifetime later (log ++ [job]) := by
  have hroom : 1 ≤ max capacity 1 := Nat.le_max_right _ _
  have hdrop : (log ++ [job]).drop (log.length + 1 - max capacity 1) =
      log.drop (log.length + 1 - max capacity 1) ++ [job] :=
    List.drop_append_of_le_length (by omega)
  rw [window, window, List.length_append, List.length_singleton, hdrop, List.filter_append,
    List.filter_append, slide _ _ log hroom hstrict hordered]

theorem Steady.past {past : List Timestamp} {now : Timestamp} (h : Steady (past ++ [now])) :
    Steady past :=
  ((steady_append_iff past now).mp h).1

/-- A reading may be left out. -/
theorem Steady.skip {past : List Timestamp} {t now : Timestamp}
    (h : Steady (past ++ [t] ++ [now])) : Steady (past ++ [now]) := by
  rw [steady_append_iff] at *
  exact ⟨h.1.past, h.2.1, fun u hu => h.2.2 u (by simp [hu])⟩

theorem Steady.before_last {past : List Timestamp} {t now : Timestamp}
    (h : Steady (past ++ [t] ++ [now])) : now.before t = false :=
  ((steady_append_iff _ now).mp h).2.2 t (by simp)

/-- What the registry holds after some starts among some readings: jobs in the order they were
created, at least all that are still in the window at any later time, and none ahead of its time. -/
structure Tracks (outcome : Nat → Outcome) (capacity : Nat) (lifetime : Duration) (s : State)
    (pre : List (String × Timestamp)) (past : List Timestamp) : Prop where
  issued : s.issued = pre.length
  room : s.registry.room = max capacity 1
  lifetime_eq : s.registry.lifetime = lifetime
  times : (pre.map Prod.snd).Sublist past
  sublist : (s.registry.jobs.map Job.origin).Sublist (created outcome pre)
  phases : ∀ job ∈ s.registry.jobs, ∀ now, Steady (past ++ [now]) →
    job.phase.later (.due (now.since job.createdAt)) = .due (now.since job.createdAt)
  window : ∀ now, Steady (past ++ [now]) →
    (s.registry.jobs.map Job.origin).filter (Job.alive lifetime now) =
      window capacity lifetime now (created outcome pre)

namespace Tracks

variable {outcome : Nat → Outcome} {capacity : Nat} {lifetime : Duration} {s : State}
  {pre : List (String × Timestamp)} {past : List Timestamp} {now : Timestamp}

theorem regular_createdAt (h : Tracks outcome capacity lifetime s pre past) (hs : Steady past)
    {job : Job} (hj : job ∈ created outcome pre) : job.createdAt.Regular := by
  obtain ⟨k, key, time, -, hk, rfl⟩ := (mem_created_iff outcome pre job).mp hj
  have hmem : (key, time) ∈ pre := List.mem_of_getElem? hk
  exact hs.regular time (h.times.subset (List.mem_map.mpr ⟨(key, time), hmem, rfl⟩))

theorem origin_mem (h : Tracks outcome capacity lifetime s pre past) {job : Job}
    (hj : job ∈ s.registry.jobs) : job.origin ∈ created outcome pre :=
  h.sublist.subset (List.mem_map.mpr ⟨job, hj, rfl⟩)

/-- A job that is no longer kept at some time is not kept at a later time. -/
theorem alive_mono (h : Tracks outcome capacity lifetime s pre past) {t : Timestamp}
    (hs : Steady (past ++ [t] ++ [now])) {job : Job} (hj : job ∈ created outcome pre)
    (hk : job.alive lifetime now = true) : job.alive lifetime t = true := by
  have hle := Timestamp.since_le_since (hs.past.regular t (by simp)) (hs.regular now (by simp))
    (h.regular_createdAt hs.past.past hj) hs.before_last
  simp only [Job.alive, decide_eq_true_eq] at *
  exact Int.lt_of_le_of_lt hle hk

/-- Reading drops jobs that are gone for good, and brings jobs up to date. -/
theorem read (h : Tracks outcome capacity lifetime s pre past) (hs : Steady (past ++ [now]))
    (which : Job → Bool) :
    Tracks outcome capacity lifetime
      { s with registry := (s.registry.expire now).refresh now which } pre (past ++ [now]) where
  issued := h.issued
  room := h.room
  lifetime_eq := h.lifetime_eq
  times := h.times.trans (List.sublist_append_left past [now])
  sublist := by
    rw [Registry.origins_refresh, Registry.origins_expire]
    exact List.filter_sublist.trans h.sublist
  phases := by
    intro job hj later hl
    simp only [Registry.jobs_refresh, List.mem_map, Registry.mem_jobs_expire] at hj
    obtain ⟨old, ⟨hold, -⟩, rfl⟩ := hj
    have hphase := h.phases old hold later hl.skip
    have hregular : old.createdAt.Regular := by
      simpa using h.regular_createdAt hs.past (h.origin_mem hold)
    have hle := Timestamp.since_le_since (hs.regular now (by simp)) (hl.regular later (by simp))
      hregular hl.before_last
    split
    · simp only [Job.createdAt_advance]
      simp only [Job.advance, Phase.later_assoc]
      rw [Phase.later_due_of_le hle]
      exact hphase
    · exact hphase
  window := by
    intro later hl
    rw [Registry.origins_refresh, Registry.origins_expire, Registry.keeps_eq_alive, h.lifetime_eq,
      List.filter_filter, ← h.window later hl.skip]
    apply List.filter_congr
    intro job hj
    have hmono := h.alive_mono hl (h.sublist.subset hj)
    cases hk : job.alive lifetime later <;> simp_all

theorem jobId_eq (h : Tracks outcome capacity lifetime s pre past) {job : Job}
    (hj : job ∈ s.registry.jobs) : job.jobId = jobId job.number := by
  obtain ⟨k, key, time, -, -, he⟩ := (mem_created_iff outcome pre _).mp (h.origin_mem hj)
  rw [← Job.jobId_origin, ← Job.number_origin, he]
  rfl

/-- No job in the registry has the id of the next one. -/
theorem jobId_ne_next (h : Tracks outcome capacity lifetime s pre past) {job : Job}
    (hj : job ∈ s.registry.jobs) : job.jobId ≠ jobId (pre.length + 1) := by
  obtain ⟨k, key, time, -, hk, he⟩ := (mem_created_iff outcome pre _).mp (h.origin_mem hj)
  have hnumber : job.number = k := congrArg Job.number he
  obtain ⟨hlt, -⟩ := List.getElem?_eq_some_iff.mp hk
  rw [h.jobId_eq hj, Ne, jobId_inj, hnumber]
  omega

theorem ordered_expire (h : Tracks outcome capacity lifetime s pre past) (hs : Steady past)
    (now : Timestamp) : ((s.registry.expire now).jobs).Pairwise fun a b =>
      a.older b = true ∧ a.jobId ≠ b.jobId := by
  have hsub : ((s.registry.expire now).jobs.map Job.origin).Sublist (created outcome pre) :=
    ((s.registry.expire_sublist now).map _).trans h.sublist
  have hlog := (created_ordered outcome (hs.sublist h.times)).sublist hsub
  rw [List.pairwise_map] at hlog
  apply List.Pairwise.imp_of_mem _ hlog
  intro a b ha hb hab
  have hid := fun job hj => h.jobId_eq ((s.registry.expire_sublist now).subset (a := job) hj)
  refine ⟨Job.older_of_before hab.1 hab.2, ?_⟩
  rw [hid a ha, hid b hb, Ne, jobId_inj]
  exact Nat.ne_of_lt hab.2

/-- What a new job is put behind. -/
theorem origins_insert (h : Tracks outcome capacity lifetime s pre past)
    (hs : Steady (past ++ [now])) {job : Job}
    (hnew : ∀ other ∈ s.registry.jobs, other.jobId ≠ job.jobId) :
    (s.registry.insert job now).jobs.map Job.origin =
      (let kept := Simulation.window capacity lifetime now (created outcome pre)
       if kept.length < max capacity 1 then kept else kept.tail) ++ [job.origin] := by
  have hordered := h.ordered_expire hs.past now
  rw [Registry.jobs_insert_of_new hnew, List.map_append,
    Registry.jobs_makeRoom_of_ordered (hordered.imp And.left) (hordered.imp And.right)]
  have hexpire := s.registry.origins_expire now
  rw [Registry.keeps_eq_alive, h.lifetime_eq, h.window now hs] at hexpire
  rw [← hexpire, Registry.room_expire, h.room]
  by_cases hlen : (s.registry.expire now).jobs.length < max capacity 1
  · simp [hlen]
  · simp [hlen, List.map_tail]

/-- Of two jobs, the one created later is kept when the other is. -/
theorem alive_ordered (h : Tracks outcome capacity lifetime s pre past)
    (hs : Steady (past ++ [now])) : (created outcome pre).Pairwise fun a b =>
      a.alive lifetime now = true → b.alive lifetime now = true := by
  apply List.Pairwise.imp_of_mem _ (created_ordered outcome (hs.past.sublist h.times))
  intro a b ha hb hab hk
  have hle := Timestamp.since_le_since_left (h.regular_createdAt hs.past ha)
    (h.regular_createdAt hs.past hb) (hs.regular now (by simp)) hab.1
  simp only [Job.alive, decide_eq_true_eq] at *
  exact Int.lt_of_le_of_lt hle hk

/-- Starting a job slides the window. -/
theorem start (h : Tracks outcome capacity lifetime s pre past) (hs : Steady (past ++ [now]))
    (key : String) :
    Tracks outcome capacity lifetime (s.start key outcome now).2 (pre ++ [(key, now)])
      (past ++ [now]) := by
  let job := newJob (pre.length + 1) key now (outcome (pre.length + 1))
  have hstate : (s.start key outcome now).2 =
      { s with issued := pre.length + 1, registry := s.registry.insert job now } := by
    simp [State.start, State.takeNumber, State.enter, h.issued, job]
  have hnew : ∀ other ∈ s.registry.jobs, other.jobId ≠ job.jobId :=
    fun other ho => h.jobId_ne_next ho
  have horigins := h.origins_insert hs hnew
  have hlog : created outcome (pre ++ [(key, now)]) = created outcome pre ++ [job] :=
    created_concat outcome pre key now
  rw [hstate]
  constructor
  case issued => simp
  case room =>
    rw [← h.room]
    simp [Registry.room]
  case lifetime_eq => simp [h.lifetime_eq]
  case times =>
    rw [List.map_append]
    exact h.times.append (.refl _)
  case sublist =>
    obtain ⟨kept, hkept, hjobs⟩ := s.registry.kept_sublist job now
    rw [hlog]
    change ((s.registry.insert job now).jobs.map Job.origin).Sublist _
    rw [hjobs, List.map_append]
    exact ((hkept.map _).trans h.sublist).append (.refl _)
  case phases =>
    intro other ho later hl
    obtain ⟨kept, hkept, hjobs⟩ := s.registry.kept_sublist job now
    change other ∈ (s.registry.insert job now).jobs at ho
    rw [hjobs, List.mem_append, List.mem_singleton] at ho
    rcases ho with ho | rfl
    · exact h.phases other (hkept.subset ho) later hl.skip
    · exact Phase.pending_later _
  case window =>
    intro later hl
    rw [horigins, hlog]
    exact window_concat capacity lifetime job (fun other ho => h.alive_mono hl ho)
      (h.alive_ordered hs)

theorem perform (h : Tracks outcome capacity lifetime s pre past) (a : Ask)
    (hs : Steady (past ++ [a.now])) :
    Tracks outcome capacity lifetime (s.perform outcome a) (pre ++ a.start?.toList)
      (past ++ [a.now]) := by
  obtain ⟨request, time⟩ := a
  cases request with
  | start key => exact h.start hs key
  | get jobId =>
    rw [show pre ++ (Ask.start? ⟨.get jobId, time⟩).toList = pre from List.append_nil pre]
    exact h.read hs fun job => job.jobId = jobId
  | list filter =>
    rw [show pre ++ (Ask.start? ⟨.list filter, time⟩).toList = pre from List.append_nil pre]
    exact h.read hs fun _ => true

/-- A whole history of requests slides the window along its starts. -/
theorem after (h : Tracks outcome capacity lifetime s pre past) (history : List Ask)
    (hs : Steady (past ++ history.map Ask.now)) :
    Tracks outcome capacity lifetime (s.after outcome history) (pre ++ starts history)
      (past ++ history.map Ask.now) := by
  induction history generalizing s pre past with
  | nil => simpa [starts, State.after] using h
  | cons a rest ih =>
    have hpast : past ++ (a :: rest).map Ask.now = (past ++ [a.now]) ++ rest.map Ask.now := by simp
    have hpre : pre ++ starts (a :: rest) = (pre ++ a.start?.toList) ++ starts rest := by
      cases hstart : a.start? <;> simp [starts, hstart]
    rw [hpast] at hs ⊢
    rw [hpre]
    exact ih (h.perform a (hs.sublist (List.sublist_append_left _ _))) hs

theorem origins_expire (h : Tracks outcome capacity lifetime s pre past)
    (hs : Steady (past ++ [now])) : (s.registry.expire now).jobs.map Job.origin =
      Simulation.window capacity lifetime now (created outcome pre) := by
  rw [Registry.origins_expire, Registry.keeps_eq_alive, h.lifetime_eq, h.window now hs]

/-- A job that is read has the record for the time since its creation. -/
theorem snapshot_advance (h : Tracks outcome capacity lifetime s pre past)
    (hs : Steady (past ++ [now])) {job : Job} (hj : job ∈ s.registry.jobs) :
    (job.advance now).snapshot = job.origin.recordAfter (now.since job.origin.createdAt) :=
  Job.snapshot_eq_recordAfter (h.phases job hj now hs)

theorem list_eq (h : Tracks outcome capacity lifetime s pre past) (hs : Steady (past ++ [now])) :
    (s.registry.list now).1 = (Simulation.window capacity lifetime now (created outcome pre)).map
      fun job => job.recordAfter (now.since job.createdAt) := by
  rw [Registry.list_fst, ← h.origins_expire hs, List.map_map]
  apply List.map_congr_left
  intro job hj
  exact h.snapshot_advance hs ((s.registry.expire_sublist now).subset hj)

theorem get_eq (h : Tracks outcome capacity lifetime s pre past) (hs : Steady (past ++ [now]))
    (id : String) : (s.registry.get id now).1 =
      ((Simulation.window capacity lifetime now (created outcome pre)).find? (·.jobId = id)).map
        fun job => job.recordAfter (now.since job.createdAt) := by
  rw [Registry.get_fst, ← h.origins_expire hs, List.find?_map, Option.map_map]
  change _ = ((s.registry.expire now).jobs.find? (·.jobId = id)).map _
  cases hf : (s.registry.expire now).jobs.find? (·.jobId = id) with
  | none => rfl
  | some job =>
    have hj := (s.registry.expire_sublist now).subset (List.mem_of_find?_eq_some hf)
    exact congrArg some (h.snapshot_advance hs hj)

end Tracks

theorem tracks_opened (outcome : Nat → Outcome) (capacity : Nat) (lifetime : Duration)
    (clock : Clock) : Tracks outcome capacity lifetime (opened capacity lifetime clock) [] [] where
  issued := rfl
  room := rfl
  lifetime_eq := rfl
  times := .slnil
  sublist := .slnil
  phases := fun _ hj => by cases hj
  window := fun _ _ => by simp [opened, created, window]

/-- The `k`-th start was for a process and at a time, the job is one of the last that fit, and its
lifetime is not over. -/
structure Current (capacity : Nat) (lifetime : Duration) (starts : List (String × Timestamp))
    (now : Timestamp) (k : Nat) (key : String) (time : Timestamp) : Prop where
  numbered : 1 ≤ k
  started : starts[k - 1]? = some (key, time)
  fits : starts.length - max capacity 1 < k
  alive : now.since time < lifetime

theorem mem_window_iff (outcome : Nat → Outcome) (capacity : Nat) (lifetime : Duration)
    (starts : List (String × Timestamp)) (now : Timestamp) (job : Job) :
    job ∈ window capacity lifetime now (created outcome starts) ↔
      ∃ k key time, Current capacity lifetime starts now k key time ∧
        job = newJob k key time (outcome k) := by
  rw [window, List.mem_filter, List.mem_iff_getElem?, length_created]
  simp only [List.getElem?_drop]
  constructor
  · rintro ⟨⟨i, hi⟩, ha⟩
    simp only [created, List.getElem?_mapIdx, Option.map_eq_some_iff] at hi
    obtain ⟨⟨key, time⟩, hi, rfl⟩ := hi
    refine ⟨starts.length - max capacity 1 + i + 1, key, time, ?_, rfl⟩
    exact ⟨by omega, by simpa using hi, by omega, of_decide_eq_true ha⟩
  · rintro ⟨k, key, time, hc, rfl⟩
    have hk := hc.numbered
    have hfits := hc.fits
    refine ⟨⟨k - 1 - (starts.length - max capacity 1), ?_⟩, ?_⟩
    · have hi : starts.length - max capacity 1 + (k - 1 - (starts.length - max capacity 1)) =
          k - 1 := by omega
      rw [hi, created, List.getElem?_mapIdx, hc.started, Option.map_some, Nat.sub_add_cancel hk]
    · exact decide_eq_true hc.alive

theorem window_jobId (outcome : Nat → Outcome) (capacity : Nat) (lifetime : Duration)
    {starts : List (String × Timestamp)} (h : Steady (starts.map Prod.snd)) (now : Timestamp) :
    (window capacity lifetime now (created outcome starts)).Pairwise fun a b =>
      a.jobId ≠ b.jobId := by
  have hsub : (window capacity lifetime now (created outcome starts)).Sublist
      (created outcome starts) := List.filter_sublist.trans (List.drop_sublist _ _)
  apply List.Pairwise.imp_of_mem _ ((created_ordered outcome h).sublist hsub)
  intro a b ha hb hab
  have hid : ∀ job ∈ created outcome starts, job.jobId = jobId job.number := by
    intro job hj
    obtain ⟨k, key, time, -, -, rfl⟩ := (mem_created_iff outcome starts job).mp hj
    rfl
  rw [hid a (hsub.subset ha), hid b (hsub.subset hb), Ne, jobId_inj]
  exact Nat.ne_of_lt hab.2

namespace Tracks

variable {outcome : Nat → Outcome} {capacity : Nat} {lifetime : Duration} {s : State}
  {pre : List (String × Timestamp)} {past : List Timestamp} {now : Timestamp}

theorem get_ok_iff (h : Tracks outcome capacity lifetime s pre past) (hs : Steady (past ++ [now]))
    (id : String) (r : JobRecord) : (s.get id now).1 = .ok r ↔
      ∃ k key time, Current capacity lifetime pre now k key time ∧ id = jobId k ∧
        r = (newJob k key time (outcome k)).recordAfter (now.since time) := by
  have hdistinct := window_jobId outcome capacity lifetime (hs.past.sublist h.times) now
  have hok : (s.get id now).1 = .ok r ↔ (s.registry.get id now).1 = some r := by
    rw [State.get_fst]
    cases (s.registry.get id now).1 <;> simp
  rw [hok, h.get_eq hs, Option.map_eq_some_iff]
  constructor
  · rintro ⟨job, hf, rfl⟩
    have hid : job.jobId = id := by simpa using List.find?_some hf
    obtain ⟨k, key, time, hc, rfl⟩ :=
      (mem_window_iff outcome capacity lifetime pre now job).mp (List.mem_of_find?_eq_some hf)
    exact ⟨k, key, time, hc, hid.symm, rfl⟩
  · rintro ⟨k, key, time, hc, rfl, rfl⟩
    have hj := (mem_window_iff outcome capacity lifetime pre now _).mpr ⟨k, key, time, hc, rfl⟩
    exact ⟨_, find?_jobId hdistinct hj, rfl⟩

theorem get_not_found (h : Tracks outcome capacity lifetime s pre past)
    (hs : Steady (past ++ [now])) (id : String)
    (hnone : ¬ ∃ k key time, Current capacity lifetime pre now k key time ∧ id = jobId k) :
    (s.get id now).1 = .error (.notFound ("Job not found: " ++ id)) := by
  cases hget : (s.get id now).1 with
  | ok r =>
    obtain ⟨k, key, time, hc, hid, -⟩ := (h.get_ok_iff hs id r).mp hget
    exact absurd ⟨k, key, time, hc, hid⟩ hnone
  | error f =>
    rw [State.get_fst] at hget
    cases hfound : (s.registry.get id now).1 <;> simp_all [jobNotFound]

theorem state_list_eq (h : Tracks outcome capacity lifetime s pre past)
    (hs : Steady (past ++ [now])) (filter : JobFilter) :
    (s.list filter now).1 = ((Simulation.window capacity lifetime now (created outcome pre)).map
      fun job => job.recordAfter (now.since job.createdAt)).filter filter.accepts := by
  rw [← h.list_eq hs]
  rfl

theorem mem_list_iff (h : Tracks outcome capacity lifetime s pre past) (hs : Steady (past ++ [now]))
    (filter : JobFilter) (r : JobRecord) : r ∈ (s.list filter now).1 ↔
      ∃ k key time, Current capacity lifetime pre now k key time ∧
        r = (newJob k key time (outcome k)).recordAfter (now.since time) ∧
        filter.accepts r = true := by
  rw [h.state_list_eq hs, List.mem_filter, List.mem_map]
  constructor
  · rintro ⟨⟨job, hj, rfl⟩, hf⟩
    obtain ⟨k, key, time, hc, rfl⟩ := (mem_window_iff outcome capacity lifetime pre now job).mp hj
    exact ⟨k, key, time, hc, rfl, hf⟩
  · rintro ⟨k, key, time, hc, rfl, hf⟩
    exact ⟨⟨_, (mem_window_iff outcome capacity lifetime pre now _).mpr ⟨k, key, time, hc, rfl⟩,
      rfl⟩, hf⟩

theorem nodup_list (h : Tracks outcome capacity lifetime s pre past) (hs : Steady (past ++ [now]))
    (filter : JobFilter) : ((s.list filter now).1.map JobRecord.jobId).Nodup := by
  have hdistinct := window_jobId outcome capacity lifetime (hs.past.sublist h.times) now
  rw [h.state_list_eq hs]
  apply List.Nodup.sublist (List.filter_sublist.map _)
  rw [List.map_map, List.Nodup, List.pairwise_map]
  exact hdistinct.imp fun hab => by simpa using hab

/-- A job that is started has the record of one that was just created. -/
theorem start_fst (h : Tracks outcome capacity lifetime s pre past) (hs : Steady (past ++ [now]))
    (key : String) : (s.start key outcome now).1 =
      (newJob (pre.length + 1) key now (outcome (pre.length + 1))).recordAfter
        (now.since now) := by
  have hzero : now.since now = 0 := by
    rw [Timestamp.since_eq (hs.regular now (by simp)) (hs.regular now (by simp))]
    exact Int.sub_self _
  rw [← h.issued, hzero]
  exact Job.snapshot_eq_recordAfter rfl

end Tracks

/-- What is answered after any history of requests.  A job is found, and listed once, if it is one
of the last that fit and its lifetime is not over; its record depends on its start and the time
since only.  Two histories with the same starts cannot be told apart; the order of a listing says
nothing. -/
theorem answers_from_window (outcome : Nat → Outcome) (capacity : Nat) (lifetime : Duration)
    (clock : Clock) (history : List Ask) (now : Timestamp)
    (steady : Steady (history.map Ask.now ++ [now])) :
    let s := (opened capacity lifetime clock).after outcome history
    let current := Current capacity lifetime (starts history) now
    let record := fun k key time => (newJob k key time (outcome k)).recordAfter (now.since time)
    (∀ id r, (s.get id now).1 = .ok r ↔
      ∃ k key time, current k key time ∧ id = jobId k ∧ r = record k key time) ∧
    (∀ id, (¬ ∃ k key time, current k key time ∧ id = jobId k) →
      (s.get id now).1 = .error (.notFound ("Job not found: " ++ id))) ∧
    (∀ filter r, r ∈ (s.list filter now).1 ↔
      ∃ k key time, current k key time ∧ r = record k key time ∧ filter.accepts r = true) ∧
    (∀ filter, ((s.list filter now).1.map JobRecord.jobId).Nodup) ∧
    (∀ key, (s.start key outcome now).1 = record ((starts history).length + 1) key now) ∧
    (∀ history', Steady (history'.map Ask.now ++ [now]) → starts history' = starts history →
      let s' := (opened capacity lifetime clock).after outcome history'
      (∀ id, (s'.get id now).1 = (s.get id now).1) ∧
      (∀ filter, (s'.list filter now).1.Perm (s.list filter now).1) ∧
      (∀ key, (s'.start key outcome now).1 = (s.start key outcome now).1)) := by
  intro s current record
  have htracks := (tracks_opened outcome capacity lifetime clock).after history steady.past
  refine ⟨htracks.get_ok_iff steady, htracks.get_not_found steady, htracks.mem_list_iff steady,
    htracks.nodup_list steady, htracks.start_fst steady, ?_⟩
  intro history' steady' hstarts s'
  have htracks' := (tracks_opened outcome capacity lifetime clock).after history' steady'.past
  simp only [List.nil_append, hstarts] at htracks' htracks
  refine ⟨fun id => ?_, fun filter => ?_, fun key => ?_⟩
  · rw [State.get_fst, State.get_fst, htracks'.get_eq steady', htracks.get_eq steady]
  · rw [htracks'.state_list_eq steady', htracks.state_list_eq steady]
  · rw [htracks'.start_fst steady', htracks.start_fst steady]

/-- Three starts with room for two and six seconds to live: the first job had to make room, the
second is just over its lifetime, the third has just ended. -/
theorem answers_from_window_of_three :
    let time := fun second => Timestamp.mk 20000 second 0
    let history : List Ask := [⟨.start "A", time 0⟩, ⟨.list {}, time 3⟩, ⟨.start "B", time 3⟩,
      ⟨.get "JOB-1001", time 4⟩, ⟨.start "C", time 4⟩]
    let s := (opened 2 (seconds 6) (.held (time 0))).after (fun _ => .faulted) history
    (s.get "JOB-1003" (time 9)).1 = .ok (newJob 3 "C" (time 4) .faulted).endedRecord ∧
    (s.get "JOB-1002" (time 9)).1 = .error (.notFound "Job not found: JOB-1002") ∧
    (s.get "JOB-1001" (time 9)).1 = .error (.notFound "Job not found: JOB-1001") := by
  intro time history s
  have hwindow := answers_from_window (fun _ => .faulted) 2 (seconds 6) (.held (time 0)) history
    (time 9) (by decide)
  refine ⟨(hwindow.1 _ _).mpr ⟨3, "C", time 4, ⟨by decide, rfl, by decide, by decide⟩, rfl, ?_⟩,
    hwindow.2.1 "JOB-1002" ?_, hwindow.2.1 "JOB-1001" ?_⟩
  · change _ = (newJob 3 "C" (time 4) .faulted).recordAfter ((time 9).since (time 4))
    rw [Job.recordAfter, if_neg (by decide), if_neg (by decide)]
  · rintro ⟨k, key, t, hc, hid⟩
    obtain rfl : 2 = k := jobId_inj.mp hid
    have ht : ("B", time 3) = (key, t) := Option.some.inj hc.started
    have halive : (time 9).since (time 3) < seconds 6 := (Prod.mk.inj ht).2 ▸ hc.alive
    exact absurd halive (by decide)
  · rintro ⟨k, key, t, hc, hid⟩
    obtain rfl : 1 = k := jobId_inj.mp hid
    exact absurd hc.fits (by decide)

end RobotDesk.Simulation
