import RobotDesk.Proofs.SlidingWindow
import RobotDesk.Workplace

/-!
How long simulated jobs are kept.

A job stays in the registry until its lifetime is over, unless it has to make room for another one.
The settings give the lifetime in seconds.  A number of seconds that is too long to be kept exactly
is replaced by a year, which is shorter; so the lifetime is the one that was asked for up to
9223372036854775 seconds, and beyond that a job may be gone when it should be there.
-/
namespace RobotDesk

namespace Simulation

open Time

namespace State

/-- Whether a request starts a job for which the job with an id has to make room. -/
def DropsAt (s : State) (id : String) (a : Ask) : Prop :=
  a.start?.isSome = true ∧ (∃ job ∈ (s.registry.expire a.now).jobs, job.jobId = id) ∧
    ∀ job ∈ (s.registry.expire a.now).makeRoom.jobs, job.jobId ≠ id

/-- Whether the job with an id has to make room at one of some requests. -/
def MadeRoom (outcome : Nat → Outcome) (id : String) : State → List Ask → Prop
  | _, [] => False
  | s, a :: rest => s.DropsAt id a ∨ MadeRoom outcome id (s.perform outcome a) rest

/-- Every job that does not have to make room is found as long as less than `span` has passed since
its creation, whatever was asked in the meantime. -/
def KeepsFor (outcome : Nat → Outcome) (s : State) (span : Duration) : Prop :=
  ∀ (before : List Ask) (key : String) (time : Timestamp) (later : List Ask) (now : Timestamp),
    Steady ((before ++ ⟨.start key, time⟩ :: later).map Ask.now ++ [now]) →
    let born := (s.after outcome before).start key outcome time
    ¬ MadeRoom outcome born.1.jobId born.2 later → now.since time < span →
    ∃ r, ((born.2.after outcome later).get born.1.jobId now).1 = .ok r ∧
      r.jobId = born.1.jobId ∧ r.processKey = key ∧ r.createdAt = time

/-- Whatever is found in one simulation after some requests is found in another one too. -/
def Outlasts (outcome : Nat → Outcome) (s' s : State) : Prop :=
  ∀ (history : List Ask) (now : Timestamp), Steady (history.map Ask.now ++ [now]) →
    ∀ id r, ((s.after outcome history).get id now).1 = .ok r →
      ((s'.after outcome history).get id now).1 = .ok r

end State

theorem Job.processKey_recordAfter (job : Job) (elapsed : Duration) :
    (job.recordAfter elapsed).processKey = job.processKey := by
  unfold recordAfter endedRecord
  split
  · rfl
  split
  · rfl
  · cases job.outcome <;> rfl

theorem Job.createdAt_recordAfter (job : Job) (elapsed : Duration) :
    (job.recordAfter elapsed).createdAt = job.createdAt := by
  unfold recordAfter endedRecord
  split
  · rfl
  split
  · rfl
  · cases job.outcome <;> rfl

namespace Tracks

variable {outcome : Nat → Outcome} {capacity : Nat} {lifetime : Duration} {s : State}
  {pre : List (String × Timestamp)} {past : List Timestamp} {now : Timestamp} {job : Job}

/-- A job that is alive stays when jobs are read. -/
theorem mem_read (h : Tracks outcome capacity lifetime s pre past)
    (hj : job ∈ s.registry.jobs.map Job.origin) (halive : job.alive lifetime now = true)
    (which : Job → Bool) :
    job ∈ ((s.registry.expire now).refresh now which).jobs.map Job.origin := by
  rw [Registry.origins_refresh, Registry.origins_expire, Registry.keeps_eq_alive, h.lifetime_eq]
  exact List.mem_filter.mpr ⟨hj, halive⟩

/-- A job that is alive stays when another one is started, unless it has to make room. -/
theorem mem_start (h : Tracks outcome capacity lifetime s pre past) (hs : Steady past)
    (hj : job ∈ s.registry.jobs.map Job.origin) (halive : job.alive lifetime now = true)
    (key : String) (hroom : ¬ s.DropsAt job.jobId ⟨.start key, now⟩) :
    job ∈ (s.start key outcome now).2.registry.jobs.map Job.origin := by
  have hnew : ∀ other ∈ s.registry.jobs,
      other.jobId ≠ (newJob (s.issued + 1) key now (outcome (s.issued + 1))).jobId := by
    rw [h.issued]
    exact fun other ho => h.jobId_ne_next ho
  change job ∈ (s.registry.insert _ now).jobs.map Job.origin
  rw [Registry.jobs_insert_of_new hnew, List.map_append]
  apply List.mem_append_left
  obtain ⟨held, hheld, rfl⟩ := List.mem_map.mp hj
  have hkept : held ∈ (s.registry.expire now).jobs := by
    rw [Registry.mem_jobs_expire, Registry.keeps_eq_alive, h.lifetime_eq]
    exact ⟨hheld, halive⟩
  have hstays : ∃ other ∈ (s.registry.expire now).makeRoom.jobs, other.jobId = held.jobId := by
    apply Decidable.byContradiction
    intro hnone
    exact hroom ⟨rfl, ⟨held, hkept, rfl⟩, fun other ho hid => hnone ⟨other, ho, hid⟩⟩
  obtain ⟨other, ho, hid⟩ := hstays
  have hmem := ((s.registry.expire now).makeRoom_sublist).subset ho
  have hdistinct := (h.ordered_expire hs now).imp And.right
  obtain rfl := eq_of_jobId hdistinct hmem hkept hid
  exact List.mem_map.mpr ⟨other, ho, rfl⟩

theorem mem_perform (h : Tracks outcome capacity lifetime s pre past) (hs : Steady past) (a : Ask)
    (hj : job ∈ s.registry.jobs.map Job.origin) (halive : job.alive lifetime a.now = true)
    (hroom : ¬ s.DropsAt job.jobId a) :
    job ∈ (s.perform outcome a).registry.jobs.map Job.origin := by
  obtain ⟨request, time⟩ := a
  cases request with
  | start key => exact h.mem_start hs hj halive key hroom
  | get jobId => exact h.mem_read hj halive _
  | list filter => exact h.mem_read hj halive _

/-- A job that is alive at every request and never has to make room stays. -/
theorem mem_after (h : Tracks outcome capacity lifetime s pre past) (history : List Ask)
    (hs : Steady (past ++ history.map Ask.now)) (hj : job ∈ s.registry.jobs.map Job.origin)
    (halive : ∀ a ∈ history, job.alive lifetime a.now = true)
    (hroom : ¬ State.MadeRoom outcome job.jobId s history) :
    job ∈ (s.after outcome history).registry.jobs.map Job.origin := by
  induction history generalizing s pre past with
  | nil => exact hj
  | cons a rest ih =>
    have hpast : past ++ (a :: rest).map Ask.now = (past ++ [a.now]) ++ rest.map Ask.now := by simp
    rw [hpast] at hs
    have hsteady : Steady (past ++ [a.now]) := hs.sublist (List.sublist_append_left _ _)
    have hstep := h.mem_perform hsteady.past a hj (halive a List.mem_cons_self)
      fun hdrops => hroom (.inl hdrops)
    exact ih (h.perform a hsteady) hs hstep (fun b hb => halive b (List.mem_cons_of_mem a hb))
      fun hlater => hroom (.inr hlater)

/-- A job that is held and alive is found with the record for the time since its creation. -/
theorem get_of_mem (h : Tracks outcome capacity lifetime s pre past) (hs : Steady (past ++ [now]))
    (hj : job ∈ s.registry.jobs.map Job.origin) (halive : job.alive lifetime now = true) :
    (s.get job.jobId now).1 = .ok (job.recordAfter (now.since job.createdAt)) := by
  have hwindow : job ∈ Simulation.window capacity lifetime now (created outcome pre) := by
    rw [← h.window now hs]
    exact List.mem_filter.mpr ⟨hj, halive⟩
  obtain ⟨k, key, time, hcurrent, rfl⟩ := (mem_window_iff _ _ _ _ _ _).mp hwindow
  exact (h.get_ok_iff hs _ _).mpr ⟨k, key, time, hcurrent, rfl, rfl⟩

end Tracks

section Opened

variable (outcome : Nat → Outcome) (capacity : Nat) (lifetime : Duration) (clock : Clock)

/-- A simulation keeps its jobs for its lifetime. -/
theorem keepsFor_opened : (opened capacity lifetime clock).KeepsFor outcome lifetime := by
  intro before key time later now hsteady born hroom hspan
  have hreadings : (before ++ ⟨.start key, time⟩ :: later).map Ask.now ++ [now] =
      (before.map Ask.now ++ [time] ++ later.map Ask.now) ++ [now] := by simp
  rw [hreadings] at hsteady
  have hborn : Steady (before.map Ask.now ++ [time]) :=
    hsteady.past.sublist (List.sublist_append_left _ _)
  have hbefore := (tracks_opened outcome capacity lifetime clock).after before hborn.past
  have hstarted := hbefore.start hborn key
  simp only [List.nil_append] at hbefore hstarted
  let job := newJob ((starts before).length + 1) key time (outcome ((starts before).length + 1))
  have hid : born.1.jobId = job.jobId := by
    change ((State.after outcome _ before).start key outcome time).1.jobId = _
    rw [hbefore.start_fst hborn, Job.jobId_recordAfter]
  have hjob : job ∈ born.2.registry.jobs.map Job.origin := by
    have hissued := hbefore.issued
    change job ∈ (Registry.insert _ _ time).jobs.map Job.origin
    rw [hissued, Registry.jobs_insert, List.map_append]
    exact List.mem_append_right _ List.mem_cons_self
  -- Earlier readings are not after `now`, so that less time had passed at each of them.
  have halive : ∀ a ∈ later, job.alive lifetime a.now = true := by
    intro a ha
    have hlast := ((steady_append_iff _ now).mp hsteady).2.2 a.now
      (List.mem_append_right _ (List.mem_map.mpr ⟨a, ha, rfl⟩))
    have hregular (t : Timestamp) (ht : t ∈ [time] ++ later.map Ask.now) : t.Regular :=
      hsteady.regular t (by simp at ht ⊢; grind)
    have hle := Timestamp.since_le_since (hregular a.now (by simp; grind))
      (hsteady.regular now (by simp)) (hregular time (by simp)) hlast
    exact decide_eq_true (Int.lt_of_le_of_lt hle hspan)
  rw [hid] at hroom ⊢
  have hstays := hstarted.mem_after later hsteady.past hjob halive hroom
  have htracks := hstarted.after later hsteady.past
  have hget := htracks.get_of_mem hsteady hstays (decide_eq_true hspan)
  exact ⟨_, hget, job.jobId_recordAfter _, job.processKey_recordAfter _,
    job.createdAt_recordAfter _⟩

/-- With a longer lifetime nothing disappears earlier. -/
theorem outlasts_of_le {longer : Duration} (h : lifetime ≤ longer) :
    (opened capacity longer clock).Outlasts outcome (opened capacity lifetime clock) := by
  intro history now hsteady id r hget
  have htracks := (tracks_opened outcome capacity lifetime clock).after history hsteady.past
  have htracks' := (tracks_opened outcome capacity longer clock).after history hsteady.past
  obtain ⟨k, key, time, hcurrent, hid, hr⟩ := (htracks.get_ok_iff hsteady id r).mp hget
  have hlonger : Current capacity longer ([] ++ starts history) now k key time :=
    ⟨hcurrent.numbered, hcurrent.started, hcurrent.fits, Int.lt_of_lt_of_le hcurrent.alive h⟩
  exact (htracks'.get_ok_iff hsteady id r).mpr ⟨k, key, time, hlonger, hid, hr⟩

/-- The seconds of a year of 365 days. -/
def yearSecs : Nat := 31536000

/-- The first moment of a day. -/
def dayStart (day : Int) : Timestamp := ⟨day, 0, 0⟩

/-- The simulation in which a job was started at the beginning of the day zero. -/
def startedOnce : State :=
  (opened capacity lifetime clock).after outcome [⟨.start "P", dayStart 0⟩]

theorem steady_year : Steady ([dayStart 0] ++ [dayStart 365]) := by decide

theorem since_year : (dayStart 365).since (dayStart 0) = seconds yearSecs := by decide

theorem tracks_startedOnce : Tracks outcome capacity lifetime
    (startedOnce outcome capacity lifetime clock) [("P", dayStart 0)] [dayStart 0] :=
  (tracks_opened outcome capacity lifetime clock).after [⟨.start "P", dayStart 0⟩] steady_year.past

variable {lifetime}

/-- With a lifetime of more than a year, the job is found a year after its creation. -/
theorem found_after_year (h : seconds yearSecs < lifetime) :
    ∃ r, ((startedOnce outcome capacity lifetime clock).get (jobId 1) (dayStart 365)).1 =
      .ok r := by
  have hcurrent : Current capacity lifetime [("P", dayStart 0)] (dayStart 365) 1 "P"
      (dayStart 0) := by
    refine ⟨Nat.le_refl 1, rfl, ?_, by rwa [since_year]⟩
    change 1 - max capacity 1 < 1
    omega
  exact ⟨_, ((tracks_startedOnce outcome capacity lifetime clock).get_ok_iff steady_year _ _).mpr
    ⟨1, "P", dayStart 0, hcurrent, rfl, rfl⟩⟩

/-- With a lifetime of a year or less, it is not. -/
theorem lost_after_year (h : lifetime ≤ seconds yearSecs) :
    ((startedOnce outcome capacity lifetime clock).get (jobId 1) (dayStart 365)).1 =
      .error (.notFound ("Job not found: " ++ jobId 1)) := by
  apply (tracks_startedOnce outcome capacity lifetime clock).get_not_found steady_year
  rintro ⟨k, key, time, hcurrent, hid⟩
  obtain rfl : 1 = k := jobId_inj.mp hid
  have htime : ("P", dayStart 0) = (key, time) := Option.some.inj hcurrent.started
  have halive : (dayStart 365).since (dayStart 0) < lifetime :=
    (Prod.mk.inj htime).2 ▸ hcurrent.alive
  rw [since_year] at halive
  exact Int.not_lt.mpr h halive

end Opened

theorem lifetime_of_le {secs : Nat} (h : secs ≤ longestLifetime) : lifetime secs = seconds secs :=
  if_pos h

theorem lifetime_of_lt {secs : Nat} (h : longestLifetime < secs) :
    lifetime secs = seconds yearSecs :=
  if_neg (by omega)

theorem seconds_le_seconds {a b : Nat} (h : a ≤ b) : seconds a ≤ seconds b :=
  Int.mul_le_mul_of_nonneg_right (Int.ofNat_le.mpr h) (by decide)

theorem seconds_lt_seconds {a b : Nat} (h : a < b) : seconds a < seconds b :=
  Int.mul_lt_mul_of_pos_right (Int.ofNat_lt.mpr h) (by decide)

/-- Where the longer of two numbers of seconds gives the longer lifetime. -/
theorem lifetime_le_lifetime {a b : Nat} (hab : a ≤ b)
    (h : b ≤ longestLifetime ∨ a ≤ yearSecs ∨ longestLifetime < a) : lifetime a ≤ lifetime b := by
  by_cases hb : b ≤ longestLifetime
  · rw [lifetime_of_le (Nat.le_trans hab hb), lifetime_of_le hb]
    exact seconds_le_seconds hab
  have hlong : longestLifetime < b := by omega
  rw [lifetime_of_lt hlong]
  by_cases ha : a ≤ longestLifetime
  · rw [lifetime_of_le ha]
    exact seconds_le_seconds (by omega)
  · exact Int.le_of_eq (lifetime_of_lt (by omega))

end Simulation

namespace Workplace

open Simulation Time

variable {ν : Type}

/-- How the simulated jobs of a workplace end. -/
def outcome (p : Workplace ν) (number : Nat) : Outcome :=
  .rolled p.settings.failureRate (p.draws number)

theorem simulation_eq (p : Workplace ν) : p.simulation = Simulation.orchestrator p.outcome := rfl

theorem freshSimulation_eq (p : Workplace ν) : p.freshSimulation =
    Simulation.opened p.settings.capacity (lifetime p.settings.ttlSecs) (.running p.opened) := rfl

/-- The workplace with another lifetime of simulated jobs, in seconds. -/
def withLifetime (p : Workplace ν) (secs : Nat) : Workplace ν :=
  { p with settings := { p.settings with ttlSecs := secs } }

/-- Simulated jobs are kept for the seconds that the settings say exactly if these are at most
9223372036854775.  To raise them makes no job disappear earlier exactly if they stay within that
bound, or were beyond it already, or were no more than a year. -/
theorem lifetime_honoured_iff (p : Workplace ν) :
    p.simulation = Simulation.orchestrator p.outcome ∧
    (p.freshSimulation.KeepsFor p.outcome (seconds p.settings.ttlSecs) ↔
      p.settings.ttlSecs ≤ 9223372036854775) ∧
    (∀ secs, p.settings.ttlSecs ≤ secs →
      ((p.withLifetime secs).freshSimulation.Outlasts p.outcome p.freshSimulation ↔
        secs ≤ 9223372036854775 ∨ p.settings.ttlSecs ≤ 31536000 ∨
          9223372036854775 < p.settings.ttlSecs)) := by
  refine ⟨p.simulation_eq, ⟨fun hkeeps => ?_, fun hle => ?_⟩,
    fun secs hsecs => ⟨fun houtlasts => ?_, fun h => ?_⟩⟩
  · apply Nat.le_of_not_lt
    intro hlong
    have hspan : (dayStart 365).since (dayStart 0) < seconds p.settings.ttlSecs := by
      rw [since_year]
      exact seconds_lt_seconds (Nat.lt_trans (by decide) hlong)
    obtain ⟨r, hfound, -⟩ := hkeeps [] "P" (dayStart 0) [] (dayStart 365) steady_year
      (fun h => h) hspan
    have hlost := lost_after_year p.outcome p.settings.capacity (.running p.opened)
      (Int.le_of_eq (lifetime_of_lt hlong))
    exact nomatch hlost.symm.trans hfound
  · have hkeeps := keepsFor_opened p.outcome p.settings.capacity (lifetime p.settings.ttlSecs)
      (.running p.opened)
    rwa [← freshSimulation_eq, lifetime_of_le hle] at hkeeps
  · apply Decidable.byContradiction
    intro hbetween
    have hshort : p.settings.ttlSecs ≤ longestLifetime := by
      change _ ≤ 9223372036854775
      omega
    have hlong : longestLifetime < secs := by
      change 9223372036854775 < _
      omega
    have hyear : seconds yearSecs < lifetime p.settings.ttlSecs := by
      rw [lifetime_of_le hshort]
      apply seconds_lt_seconds
      change 31536000 < _
      omega
    obtain ⟨r, hfound⟩ := found_after_year p.outcome p.settings.capacity (.running p.opened) hyear
    have hstill := houtlasts [⟨.start "P", dayStart 0⟩] (dayStart 365) steady_year _ r hfound
    have hlost := lost_after_year p.outcome p.settings.capacity (.running p.opened)
      (Int.le_of_eq (lifetime_of_lt hlong))
    exact nomatch hlost.symm.trans hstill
  · exact outlasts_of_le p.outcome p.settings.capacity _ (.running p.opened)
      (lifetime_le_lifetime hsecs h)

/-- The longest lifetime that can be set is accepted, and then a job is gone after a year. -/
theorem longest_lifetime_cut_short :
    let settings : Settings :=
      { ttlSecs := 18446744073709551615, failureRate := .finite ⟨false, 0⟩ }
    let p : Workplace Unit := ⟨settings, dayStart 0, fun _ => ⟨0, 0⟩, .down⟩
    let s := p.freshSimulation.after p.outcome [⟨.start "P", dayStart 0⟩]
    settings.check = .ok () ∧
    (dayStart 365).since (dayStart 0) < seconds settings.ttlSecs ∧
    (s.get "JOB-1001" (dayStart 365)).1 = .error (.notFound "Job not found: JOB-1001") := by
  intro settings p s
  have hlong : longestLifetime < settings.ttlSecs := by decide
  exact ⟨rfl, by decide, lost_after_year p.outcome p.settings.capacity (.running p.opened)
    (Int.le_of_eq (lifetime_of_lt hlong))⟩

end Workplace
end RobotDesk
