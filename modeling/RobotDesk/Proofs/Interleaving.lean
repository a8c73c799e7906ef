import RobotDesk.Proofs.Registry

/-!
Callers that use the simulation at the same time.

A call is made in steps.  To start a job, a caller takes a number, reads the clock, has the outcome
rolled, and then enters the job in the registry; to look a job up or to list the jobs, it reads the
clock and then goes to the registry.  One caller at a time is at the registry.  Steps of different
callers may come in any order, and the clock may show anything.

A run is a list of steps.  A step that its caller cannot make changes nothing.  What is done at the
registry is written down with its answer, in the order in which it is done.
-/
namespace RobotDesk.Simulation

open Time

/-- How far a caller has come with its call. -/
inductive Stage where
  | idle
  | numbered (processKey : String) (number : Nat)
  | timed (processKey : String) (number : Nat) (now : Timestamp)
  | rolled (processKey : String) (number : Nat) (now : Timestamp) (outcome : Outcome)
  | seeking (jobId : String) (now : Timestamp)
  | surveying (filter : JobFilter) (now : Timestamp)
deriving Repr

/-- The number of a job that a caller has yet to enter. -/
def Stage.number? : Stage → Option Nat
  | .numbered _ number | .timed _ number _ | .rolled _ number _ _ => some number
  | .idle | .seeking _ _ | .surveying _ _ => none

/-- A step of a caller, with what the clock and chance bring to it. -/
inductive Move where
  | takeNumber (processKey : String)
  | readClock (now : Timestamp)
  | roll (outcome : Outcome)
  | enter
  | seek (jobId : String) (now : Timestamp)
  | lookUp
  | survey (filter : JobFilter) (now : Timestamp)
  | list
deriving Repr

/-- What was done at the registry, as of what time, and what the caller is answered. -/
inductive Event where
  | entered (job : Job) (now : Timestamp)
  | sought (jobId : String) (now : Timestamp) (answer : Except Failure JobRecord)
  | listed (filter : JobFilter) (now : Timestamp) (answer : List JobRecord)

namespace Event

def now : Event → Timestamp
  | .entered _ now | .sought _ now _ | .listed _ now _ => now

/-- The job that was entered. -/
def job? : Event → Option Job
  | .entered job _ => some job
  | .sought _ _ _ | .listed _ _ _ => none

end Event

/-- The jobs that were entered, in the order in which they were. -/
def entries (log : List Event) : List Job := log.filterMap Event.job?

/-- The simulation and its callers. -/
structure Shared (ι : Type) where
  state : State
  stage : ι → Stage := fun _ => .idle
  log : List Event := []

namespace Shared

/-- The numbers that callers have taken and not yet entered. -/
def held {ι : Type} (s : Shared ι) (who : ι) : Option Nat := (s.stage who).number?

variable {ι : Type} [DecidableEq ι]

/-- A caller comes to a stage. -/
def put (s : Shared ι) (who : ι) (stage : Stage) : Shared ι :=
  { s with stage := fun other => if other = who then stage else s.stage other }

@[simp] theorem state_put (s : Shared ι) (who : ι) (stage : Stage) :
    (s.put who stage).state = s.state := rfl
@[simp] theorem log_put (s : Shared ι) (who : ι) (stage : Stage) :
    (s.put who stage).log = s.log := rfl
@[simp] theorem stage_put_same (s : Shared ι) (who : ι) (stage : Stage) :
    (s.put who stage).stage who = stage := by simp [put]
theorem stage_put_other (s : Shared ι) {who other : ι} (stage : Stage) (h : other ≠ who) :
    (s.put who stage).stage other = s.stage other := by simp [put, h]

/-- The simulation after a caller was at the registry. -/
def visited (s : Shared ι) (who : ι) (state : State) (event : Event) : Shared ι :=
  { s with state := state, log := s.log ++ [event] }.put who .idle

def step (s : Shared ι) (who : ι) (move : Move) : Shared ι :=
  match s.stage who, move with
  | .idle, .takeNumber key =>
    let (number, state) := s.state.takeNumber
    { s with state := state }.put who (.numbered key number)
  | .numbered key number, .readClock now => s.put who (.timed key number now)
  | .timed key number now, .roll outcome => s.put who (.rolled key number now outcome)
  | .rolled key number now outcome, .enter =>
    let job := newJob number key now outcome
    s.visited who (s.state.enter job now) (.entered job now)
  | .idle, .seek jobId now => s.put who (.seeking jobId now)
  | .seeking jobId now, .lookUp =>
    let (answer, state) := s.state.get jobId now
    s.visited who state (.sought jobId now answer)
  | .idle, .survey filter now => s.put who (.surveying filter now)
  | .surveying filter now, .list =>
    let (answer, state) := s.state.list filter now
    s.visited who state (.listed filter now answer)
  | _, _ => s

def run (s : Shared ι) (moves : List (ι × Move)) : Shared ι :=
  moves.foldl (fun s m => s.step m.1 m.2) s

/-- To start a job without being interrupted is to start it at once. -/
theorem run_start (s : Shared ι) (who : ι) (h : s.stage who = .idle) (key : String)
    (now : Timestamp) (outcome : Outcome) :
    let s' := s.run [(who, .takeNumber key), (who, .readClock now), (who, .roll outcome),
      (who, .enter)]
    s'.state = (s.state.start key (fun _ => outcome) now).2 ∧
    ∃ job, s'.log = s.log ++ [.entered job now] ∧
      job.snapshot = (s.state.start key (fun _ => outcome) now).1 := by
  simp [run, step, h, visited, State.start, State.takeNumber]

/-- All that a step can do. -/
inductive Effect (s : Shared ι) (who : ι) : Shared ι → Prop where
  | nothing : Effect s who s
  | alone (stage : Stage) (h : stage.number? = (s.stage who).number?) :
      Effect s who (s.put who stage)
  | number (key : String) (h : s.stage who = .idle) :
      Effect s who ({ s with state := { s.state with issued := s.state.issued + 1 } }.put who
        (.numbered key (s.state.issued + 1)))
  | enter (key : String) (number : Nat) (now : Timestamp) (outcome : Outcome)
      (h : s.stage who = .rolled key number now outcome) :
      Effect s who (s.visited who (s.state.enter (newJob number key now outcome) now)
        (.entered (newJob number key now outcome) now))
  | lookUp (jobId : String) (now : Timestamp) (h : s.stage who = .seeking jobId now) :
      Effect s who (s.visited who (s.state.get jobId now).2
        (.sought jobId now (s.state.get jobId now).1))
  | list (filter : JobFilter) (now : Timestamp) (h : s.stage who = .surveying filter now) :
      Effect s who (s.visited who (s.state.list filter now).2
        (.listed filter now (s.state.list filter now).1))

theorem step_effect (s : Shared ι) (who : ι) (move : Move) : Effect s who (s.step who move) := by
  unfold step
  split
  · rename_i key hstage
    exact .number key hstage
  · rename_i hstage
    exact .alone _ (by rw [hstage]; rfl)
  · rename_i hstage
    exact .alone _ (by rw [hstage]; rfl)
  · rename_i hstage
    exact .enter _ _ _ _ hstage
  · rename_i hstage
    exact .alone _ (by rw [hstage]; rfl)
  · rename_i hstage
    exact .lookUp _ _ hstage
  · rename_i hstage
    exact .alone _ (by rw [hstage]; rfl)
  · rename_i hstage
    exact .list _ _ hstage
  · exact .nothing

/-- What no effect destroys holds after every run. -/
theorem run_preserves {P : Shared ι → Prop}
    (heffect : ∀ {s s' : Shared ι} {who : ι}, P s → Effect s who s' → P s') {s : Shared ι} (h : P s)
    (moves : List (ι × Move)) : P (s.run moves) := by
  induction moves generalizing s with
  | nil => exact h
  | cons m rest ih => exact ih (heffect h (s.step_effect m.1 m.2))

theorem held_put (s : Shared ι) (who : ι) (stage : Stage) :
    (s.put who stage).held = fun other => if other = who then stage.number? else s.held other := by
  funext other
  by_cases h : other = who
  · subst h
    simp [held]
  · simp [held, h, stage_put_other]

theorem held_put_of_eq (s : Shared ι) {who : ι} {stage : Stage} (h : stage.number? = s.held who) :
    (s.put who stage).held = s.held := by
  rw [held_put]
  funext other
  by_cases ho : other = who
  · subst ho
    simp [h]
  · simp [ho]

@[simp] theorem state_visited (s : Shared ι) (who : ι) (state : State) (event : Event) :
    (s.visited who state event).state = state := rfl
@[simp] theorem log_visited (s : Shared ι) (who : ι) (state : State) (event : Event) :
    (s.visited who state event).log = s.log ++ [event] := rfl
theorem held_visited (s : Shared ι) (who : ι) (state : State) (event : Event) :
    (s.visited who state event).held = fun other => if other = who then none else s.held other :=
  held_put _ who .idle

theorem held_visited_of_none (s : Shared ι) {who : ι} (h : s.held who = none) (state : State)
    (event : Event) : (s.visited who state event).held = s.held :=
  held_put_of_eq { s with state := state, log := s.log ++ [event] } h.symm

end Shared

/-- The numbers of jobs: those taken lie between one and the number issued, no two callers hold the
same, and none that is held was entered, nor any entered twice. -/
structure Numbering {ι : Type} (held : ι → Option Nat) (issued : Nat) (entries : List Job) :
    Prop where
  range : ∀ who n, held who = some n → 1 ≤ n ∧ n ≤ issued
  apart : ∀ a b n, held a = some n → held b = some n → a = b
  new : ∀ who n, held who = some n → ∀ job ∈ entries, job.number ≠ n
  entered : ∀ job ∈ entries, job.jobId = jobId job.number ∧ 1 ≤ job.number ∧ job.number ≤ issued
  once : entries.Pairwise fun a b => a.number ≠ b.number

namespace Numbering

variable {ι : Type} [DecidableEq ι] {held : ι → Option Nat} {issued : Nat} {entries : List Job}

/-- A number that is taken is greater than any before. -/
theorem take (h : Numbering held issued entries) (who : ι) :
    Numbering (fun other => if other = who then some (issued + 1) else held other) (issued + 1)
      entries where
  range := by
    intro other n hn
    split at hn
    · cases hn
      omega
    · have hr := h.range other n hn
      omega
  apart := by
    intro a b n ha hb
    split at ha <;> split at hb
    · simp_all
    · cases ha
      have hr := h.range b _ hb
      omega
    · cases hb
      have hr := h.range a _ ha
      omega
    · exact h.apart a b n ha hb
  new := by
    intro other n hn job hj
    split at hn
    · cases hn
      have hr := h.entered job hj
      omega
    · exact h.new other n hn job hj
  entered := by
    intro job hj
    have hr := h.entered job hj
    exact ⟨hr.1, hr.2.1, by omega⟩
  once := h.once

/-- A number that is entered is held by nobody any more. -/
theorem enter (h : Numbering held issued entries) {who : ι} {job : Job}
    (hn : held who = some job.number) (hid : job.jobId = jobId job.number) :
    Numbering (fun other => if other = who then none else held other) issued
      (entries ++ [job]) where
  range := by
    intro other n ho
    split at ho
    · cases ho
    · exact h.range other n ho
  apart := by
    intro a b n ha hb
    split at ha
    · cases ha
    split at hb
    · cases hb
    exact h.apart a b n ha hb
  new := by
    intro other n ho entry he
    split at ho
    · cases ho
    rename_i hne
    rcases List.mem_append.mp he with he | he
    · exact h.new other n ho entry he
    · obtain rfl := List.mem_singleton.mp he
      intro heq
      exact hne (h.apart other who n ho (heq ▸ hn))
  entered := by
    intro entry he
    rcases List.mem_append.mp he with he | he
    · exact h.entered entry he
    · obtain rfl := List.mem_singleton.mp he
      exact ⟨hid, h.range who _ hn⟩
  once := by
    rw [List.pairwise_append]
    refine ⟨h.once, List.pairwise_singleton _ _, ?_⟩
    intro entry he other ho
    obtain rfl := List.mem_singleton.mp ho
    exact h.new who _ hn entry he

end Numbering

/-- What the registry holds: jobs that were entered, in that order and each as it was created, and
never more than fit. -/
structure Holding (capacity : Nat) (lifetime : Duration) (r : Registry) (entries : List Job) :
    Prop where
  room_eq : r.room = max capacity 1
  lifetime_eq : r.lifetime = lifetime
  kept : (r.jobs.map Job.origin).Sublist entries
  fits : r.jobs.length ≤ max capacity 1

namespace Holding

variable {capacity : Nat} {lifetime : Duration} {r : Registry} {entries : List Job}

theorem insert (h : Holding capacity lifetime r entries) {job : Job} (hjob : job.origin = job)
    (now : Timestamp) : Holding capacity lifetime (r.insert job now) (entries ++ [job]) where
  room_eq := by
    rw [← h.room_eq]
    simp [Registry.room]
  lifetime_eq := by simp [h.lifetime_eq]
  kept := by
    obtain ⟨kept, hkept, hjobs⟩ := r.kept_sublist job now
    rw [hjobs, List.map_append, List.map_singleton, hjob]
    exact ((hkept.map _).trans h.kept).append (.refl _)
  fits := by
    have hfits : r.jobs.length ≤ r.room := by
      rw [h.room_eq]
      exact h.fits
    rw [← h.room_eq]
    exact Registry.length_insert_le hfits job now

theorem read (h : Holding capacity lifetime r entries) (now : Timestamp) (which : Job → Bool) :
    Holding capacity lifetime ((r.expire now).refresh now which) entries where
  room_eq := h.room_eq
  lifetime_eq := h.lifetime_eq
  kept := by
    rw [Registry.origins_refresh]
    exact ((r.expire_sublist now).map _).trans h.kept
  fits := by
    rw [Registry.jobs_refresh, List.length_map]
    exact Nat.le_trans (r.expire_sublist now).length_le h.fits

theorem origin_mem (h : Holding capacity lifetime r entries) {job : Job} (hj : job ∈ r.jobs) :
    job.origin ∈ entries :=
  h.kept.subset (List.mem_map.mpr ⟨job, hj, rfl⟩)

end Holding

namespace Shared

/-- What holds in every state that callers can bring about. -/
structure Inv {ι : Type} (capacity : Nat) (lifetime : Duration) (s : Shared ι) : Prop where
  numbering : Numbering s.held s.state.issued (entries s.log)
  holding : Holding capacity lifetime s.state.registry (entries s.log)

/-- The simulation before the first call, with nobody at it. -/
def start {ι : Type} (capacity : Nat) (lifetime : Duration) (clock : Clock) : Shared ι where
  state := opened capacity lifetime clock

theorem inv_start {ι : Type} (capacity : Nat) (lifetime : Duration) (clock : Clock) :
    Inv capacity lifetime (start capacity lifetime clock : Shared ι) where
  numbering :=
    { range := fun _ _ h => by cases h
      apart := fun _ _ _ h => by cases h
      new := fun _ _ h => by cases h
      entered := fun _ h => by cases h
      once := .nil }
  holding :=
    { room_eq := rfl
      lifetime_eq := rfl
      kept := .slnil
      fits := Nat.zero_le _ }

variable {ι : Type} {capacity : Nat} {lifetime : Duration} {s : Shared ι}

theorem Inv.jobId_eq (h : Inv capacity lifetime s) {job : Job} (hj : job ∈ s.state.registry.jobs) :
    job.jobId = jobId job.number :=
  (h.numbering.entered job.origin (h.holding.origin_mem hj)).1

theorem Inv.number_ne (h : Inv capacity lifetime s) :
    s.state.registry.jobs.Pairwise fun a b => a.number ≠ b.number := by
  have hkept := h.numbering.once.sublist h.holding.kept
  rwa [List.pairwise_map] at hkept

theorem Inv.jobId_ne (h : Inv capacity lifetime s) :
    s.state.registry.jobs.Pairwise fun a b => a.jobId ≠ b.jobId := by
  apply List.Pairwise.imp_of_mem _ h.number_ne
  intro a b ha hb hab
  rw [h.jobId_eq ha, h.jobId_eq hb, Ne, jobId_inj]
  exact hab

/-- A job that is about to be entered has a new id. -/
theorem Inv.jobId_ne_of_held (h : Inv capacity lifetime s) {who : ι} {number : Nat}
    (hheld : s.held who = some number) {job : Job} (hj : job ∈ s.state.registry.jobs) :
    job.jobId ≠ jobId number := by
  rw [h.jobId_eq hj, Ne, jobId_inj]
  exact h.numbering.new who number hheld job.origin (h.holding.origin_mem hj)

variable [DecidableEq ι]

/-- A caller that reads holds no number, and enters nothing. -/
theorem Inv.read (h : Inv capacity lifetime s) {who : ι} (hwho : s.held who = none) (event : Event)
    (hevent : event.job? = none) (which : Job → Bool) :
    Inv capacity lifetime (s.visited who
      { s.state with registry := (s.state.registry.expire event.now).refresh event.now which }
      event) := by
  have hentries : entries (s.log ++ [event]) = entries s.log := by
    simp [entries, hevent]
  constructor
  · rw [log_visited, hentries, held_visited_of_none s hwho]
    exact h.numbering
  · rw [log_visited, hentries]
    exact h.holding.read event.now which

theorem Inv.effect (h : Inv capacity lifetime s) {who : ι} {s' : Shared ι} (he : Effect s who s') :
    Inv capacity lifetime s' := by
  cases he with
  | nothing => exact h
  | alone stage hstage =>
    constructor
    · rw [held_put_of_eq s hstage]
      exact h.numbering
    · exact h.holding
  | number key hstage =>
    constructor
    · rw [held_put]
      exact h.numbering.take who
    · exact h.holding
  | enter key number now outcome hstage =>
    have hheld : s.held who = some (newJob number key now outcome).number := by
      rw [held, hstage]
      rfl
    have hentries : entries (s.log ++ [.entered (newJob number key now outcome) now]) =
        entries s.log ++ [newJob number key now outcome] := by
      simp [entries, Event.job?]
    constructor
    · rw [held_visited, log_visited, hentries]
      exact h.numbering.enter hheld rfl
    · rw [log_visited, hentries]
      exact h.holding.insert rfl now
  | lookUp jobId now hstage =>
    rw [State.get_snd]
    exact h.read (by rw [held, hstage]; rfl) (.sought jobId now _) rfl _
  | list filter now hstage =>
    rw [State.list_snd]
    exact h.read (by rw [held, hstage]; rfl) (.listed filter now _) rfl _

theorem Inv.run (h : Inv capacity lifetime s) (moves : List (ι × Move)) :
    Inv capacity lifetime (s.run moves) :=
  run_preserves (fun h he => h.effect he) h moves

/-- Why a job may leave the registry in an event: its lifetime is over, or a job is entered for
which there is no room, and this one is the oldest. -/
def Leaves (r : Registry) (job : Job) (event : Event) : Prop :=
  r.lifetime ≤ event.now.since job.createdAt ∨
  event.job?.isSome = true ∧ r.room ≤ (r.expire event.now).jobs.length ∧
    job ∈ (r.expire event.now).jobs ∧
    ∀ other ∈ (r.expire event.now).jobs, other ≠ job →
      job.createdAt.compare other.createdAt = .lt ∨
      job.createdAt = other.createdAt ∧ job.number < other.number

/-- A job that is read stays as it was created, unless its lifetime is over. -/
theorem stays_or_leaves_of_read (r : Registry) (event : Event) (which : Job → Bool) {job : Job}
    (hj : job ∈ r.jobs) :
    (∃ job' ∈ ((r.expire event.now).refresh event.now which).jobs, job'.origin = job.origin) ∨
      Leaves r job event := by
  by_cases hk : r.keeps event.now job = true
  · have hmem : job.origin ∈
        ((r.expire event.now).refresh event.now which).jobs.map Job.origin := by
      rw [Registry.origins_refresh]
      exact List.mem_map.mpr ⟨job, (r.mem_jobs_expire event.now job).mpr ⟨hj, hk⟩, rfl⟩
    exact .inl (List.mem_map.mp hmem)
  · have hover : ¬ event.now.since job.createdAt < r.lifetime := fun h => hk (decide_eq_true h)
    exact .inr (.inl (Int.not_lt.mp hover))

theorem Inv.stays_or_leaves (h : Inv capacity lifetime s) {who : ι} {s' : Shared ι}
    (he : Effect s who s') {job : Job} (hj : job ∈ s.state.registry.jobs) :
    (∃ job' ∈ s'.state.registry.jobs, job'.origin = job.origin) ∨
      ∃ event, s'.log = s.log ++ [event] ∧ Leaves s.state.registry job event := by
  cases he with
  | nothing => exact .inl ⟨job, hj, rfl⟩
  | alone stage hstage => exact .inl ⟨job, hj, rfl⟩
  | number key hstage => exact .inl ⟨job, hj, rfl⟩
  | enter key number now outcome hstage =>
    have hheld : s.held who = some number := by
      rw [held, hstage]
      rfl
    rcases Registry.mem_insert_or_leaves (newJob number key now outcome) now
      (fun other ho => h.jobId_eq ho) h.jobId_ne
      (fun other ho => h.jobId_ne_of_held hheld ho) hj with
      hstays | hover | ⟨hfull, hmem, hleast⟩
    · exact .inl ⟨job, hstays, rfl⟩
    · exact .inr ⟨_, rfl, .inl hover⟩
    · exact .inr ⟨_, rfl, .inr ⟨rfl, hfull, hmem, fun other ho hne =>
        (Job.older_iff _ _).mp (hleast other ho hne)⟩⟩
  | lookUp jobId now hstage =>
    rcases stays_or_leaves_of_read s.state.registry (.sought jobId now _) _ hj with hstays | hleaves
    · exact .inl hstays
    · exact .inr ⟨_, rfl, hleaves⟩
  | list filter now hstage =>
    rcases stays_or_leaves_of_read s.state.registry (.listed filter now _) _ hj with
      hstays | hleaves
    · exact .inl hstays
    · exact .inr ⟨_, rfl, hleaves⟩

/-- The registry under any number of callers, whose steps come in any order with any readings of the
clock.  No two starts are answered with the same id.  Each job is found under its id, which is made
from its number; the numbers differ and were issued, so that a job that is entered is there and has
not taken the place of another; and no more jobs are there than fit.  Lifetime and room stay as they
were set.  A job stays as it was created until it leaves at the end of its lifetime, or as the
oldest when there is no room for one that is entered. -/
theorem registry_under_interleaving (capacity : Nat) (lifetime : Duration) (clock : Clock)
    (moves : List (ι × Move)) :
    let s := (start capacity lifetime clock : Shared ι).run moves
    let jobs := s.state.registry.jobs
    ((entries s.log).map fun job => job.snapshot.jobId).Nodup ∧
    (∀ job ∈ jobs, jobs.find? (·.jobId = job.jobId) = some job ∧
      job.jobId = "JOB-" ++ (1000 + job.number).repr ∧
      1 ≤ job.number ∧ job.number ≤ s.state.issued) ∧
    (jobs.map Job.number).Nodup ∧
    (∀ who key number now outcome, s.stage who = .rolled key number now outcome →
      (∀ job ∈ jobs, job.jobId ≠ (newJob number key now outcome).jobId) ∧
      newJob number key now outcome ∈ (s.step who .enter).state.registry.jobs) ∧
    jobs.length ≤ max capacity 1 ∧
    s.state.registry.lifetime = lifetime ∧ s.state.registry.room = max capacity 1 ∧
    (∀ who move, ∀ job ∈ jobs,
      (∃ job' ∈ (s.step who move).state.registry.jobs, job'.origin = job.origin) ∨
      ∃ event, (s.step who move).log = s.log ++ [event] ∧ Leaves s.state.registry job event) := by
  intro s jobs
  have h : Inv capacity lifetime s := (inv_start capacity lifetime clock).run moves
  refine ⟨?_, ?_, ?_, ?_, h.holding.fits, h.holding.lifetime_eq, h.holding.room_eq, ?_⟩
  · rw [List.Nodup, List.pairwise_map]
    apply List.Pairwise.imp_of_mem _ h.numbering.once
    intro a b ha hb hab
    change a.jobId ≠ b.jobId
    rw [(h.numbering.entered a ha).1, (h.numbering.entered b hb).1, Ne, jobId_inj]
    exact hab
  · intro job hj
    exact ⟨find?_jobId h.jobId_ne hj, h.numbering.entered job.origin (h.holding.origin_mem hj)⟩
  · rw [List.Nodup, List.pairwise_map]
    exact h.number_ne
  · intro who key number now outcome hstage
    have hheld : s.held who = some number := by
      rw [held, hstage]
      rfl
    refine ⟨fun job hj => h.jobId_ne_of_held hheld hj, ?_⟩
    simp [step, hstage, State.enter, Registry.jobs_insert]
  · intro who move job hj
    exact h.stays_or_leaves (s.step_effect who move) hj

end Shared
end RobotDesk.Simulation
