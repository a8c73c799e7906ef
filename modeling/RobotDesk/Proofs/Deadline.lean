import RobotDesk.Proofs.Session
import RobotDesk.Script

/-!
When a job is polled, and how polling it ends.

Polling is described by its own rules, without a bound on the number of polls: a job that has ended
is not polled, and once the deadline has come there is no further poll; before that the desk waits
for the interval, but not beyond the deadline, and polls.  The end of the interval has to be a time
that the clock can tell, also where the deadline comes before it.  With a positive interval each
wait brings the deadline nearer, whatever the polls themselves take, so that no patience is needed.
The times and the number of polls then follow poll by poll.
-/
namespace RobotDesk

namespace Desk

variable {σ : Type} {b : Backend σ} {call : Call} {w v : World σ}

/-- An operation that succeeds takes the time of its call. -/
theorem now_of_operate_ok {answer : call.Answer} (h : operate b call w = (.ok answer, v)) :
    v.now = w.now + (b.serve call w.now w.state).latency := by
  rw [operate_of_no_problem (operate_ok h).1] at h
  obtain rfl : (Session.ask b call w).2 = v := congrArg Prod.snd h
  rfl

/-- A lookup makes its call exactly if the id is not blank. -/
theorem calls_of_lookup {jobId : String} {answer : Except Failure JobRecord}
    (h : operate b (.getJob jobId) w = (answer, v)) :
    v.calls = w.calls ++ if Text.isBlankText jobId then [] else [⟨w.now, .getJob jobId⟩] := by
  cases hblank : Text.isBlankText jobId with
  | true =>
    have hproblem : problem? (.getJob jobId) = some "jobId is required" := by
      simp [problem?, hblank]
    rw [operate_of_problem hproblem] at h
    obtain rfl : w = v := congrArg Prod.snd h
    simp
  | false =>
    rw [operate_of_no_problem ((problem?_getJob_eq_none_iff jobId).mpr hblank)] at h
    obtain rfl : (Session.ask b (.getJob jobId) w).2 = v := congrArg Prod.snd h
    exact Session.calls_ask b (.getJob jobId) w

end Desk

namespace Polling

/-- The number of intervals that cover a time, the last of them perhaps in part. -/
def turns (interval time : Nat) : Nat := (time + interval - 1) / interval

section

variable {interval time : Nat}

theorem turns_mono {earlier : Nat} (h : earlier ≤ time) :
    turns interval earlier ≤ turns interval time :=
  Nat.div_le_div_right (by omega)

/-- One turn takes an interval, or all the time that is left. -/
theorem turns_step (hinterval : 0 < interval) (htime : 0 < time) :
    turns interval (time - min interval time) + 1 = turns interval time := by
  unfold turns
  rcases Nat.le_total time interval with hle | hle
  · have hfirst : (time + interval - 1) / interval = 1 :=
      Nat.div_eq_of_lt_le (by omega) (by omega)
    rw [Nat.min_eq_right hle, hfirst, Nat.sub_self, Nat.div_eq_of_lt (by omega)]
  · have hshift : time + interval - 1 = time - interval + interval - 1 + interval := by omega
    rw [Nat.min_eq_left hle, hshift, Nat.add_div_right _ hinterval]

theorem turns_zero (hinterval : 0 < interval) : turns interval 0 = 0 :=
  Nat.div_eq_of_lt (by omega)

end

variable {σ : Type} {b : Backend σ} {interval deadline : Nat}

/-- A poll: when it is made, the job it asks for, and what it comes to. -/
structure Poll where
  issued : Nat
  jobId : String
  answer : Except Failure JobRecord

/-- The call of a poll, unless the desk refuses it. -/
def Poll.visits (poll : Poll) : List Visit :=
  if Text.isBlankText poll.jobId then [] else [⟨poll.issued, .getJob poll.jobId⟩]

/-- The records seen while polling, with the one that is there at the beginning. -/
def seen (job : JobRecord) (polls : List Poll) : List JobRecord :=
  job :: polls.filterMap (·.answer.toOption)

/-- When the next poll is due. -/
def due (interval deadline : Nat) (w : World σ) : Nat := min (w.now + interval) deadline

/-- Polling by its rules: the polls that are made, and what it comes to in which world. -/
inductive Polled (b : Backend σ) (interval deadline : Nat) :
    World σ → JobRecord → List Poll → Except Stop Ending × World σ → Prop where
  | finished {w : World σ} {job : JobRecord} (terminal : job.status.isTerminal = true) :
      Polled b interval deadline w job [] (.ok (.finished job), w)
  | timedOut {w : World σ} {job : JobRecord} (unfinished : job.status.isTerminal = false)
      (late : deadline ≤ w.now) : Polled b interval deadline w job [] (.ok (.timedOut job), w)
  | overflow {w : World σ} {job : JobRecord} (unfinished : job.status.isTerminal = false)
      (early : w.now < deadline) (untold : w.last < w.now + interval) :
      Polled b interval deadline w job [] (.error .overflow, w)
  | failed {w w' : World σ} {job : JobRecord} {f : Failure}
      (unfinished : job.status.isTerminal = false) (early : w.now < deadline)
      (told : w.now + interval ≤ w.last)
      (lookup : Desk.operate b (.getJob job.jobId) (w.wait (due interval deadline w)) =
        (.error f, w')) :
      Polled b interval deadline w job [⟨due interval deadline w, job.jobId, .error f⟩]
        (.error (.failed f), w')
  | poll {w v : World σ} {job next : JobRecord} {polls : List Poll}
      {result : Except Stop Ending × World σ}
      (unfinished : job.status.isTerminal = false) (early : w.now < deadline)
      (told : w.now + interval ≤ w.last)
      (lookup : Desk.operate b (.getJob job.jobId) (w.wait (due interval deadline w)) =
        (.ok next, v))
      (rest : Polled b interval deadline v next polls result) :
      Polled b interval deadline w job (⟨due interval deadline w, job.jobId, .ok next⟩ :: polls)
        result

/-- Before the deadline, the desk wakes up when the next poll is due. -/
theorem now_wait_due {w : World σ} (early : w.now < deadline) :
    (w.wait (due interval deadline w)).now = due interval deadline w := by
  simp only [World.now_wait, due]
  omega

/-- A poll is answered no earlier than it is due. -/
theorem due_le_now {w v : World σ} {job next : JobRecord} (early : w.now < deadline)
    (lookup : Desk.operate b (.getJob job.jobId) (w.wait (due interval deadline w)) =
      (.ok next, v)) : due interval deadline w ≤ v.now := by
  have hnow := (Desk.visit_of_operate_ok lookup).2
  rwa [now_wait_due early] at hnow

/-- A job that is watched for a number of polls is watched for as many intervals, or until the
deadline. -/
theorem Watch.min_le_now {job : JobRecord} {answers : List JobRecord} {w w' : World σ}
    (h : Watch b interval deadline w job answers w') :
    min (w.now + answers.length * interval) deadline ≤ w'.now := by
  induction h with
  | done w job => simp only [List.length_nil]; omega
  | poll unfinished early told lookup rest ih =>
    have hdue := due_le_now early lookup
    simp only [due, List.length_cons, Nat.add_mul] at hdue ⊢
    omega

/-- What follows a job that was watched, follows the polls that were made meanwhile. -/
theorem Watch.polled {job : JobRecord} {answers : List JobRecord} {polls : List Poll}
    {w v : World σ} {result : Except Stop Ending × World σ}
    (h : Watch b interval deadline w job answers v)
    (hrest : Polled b interval deadline v (answers.getLastD job) polls result) :
    ∃ polls, Polled b interval deadline w job polls result := by
  induction h with
  | done w job => exact ⟨polls, hrest⟩
  | poll unfinished early told lookup rest ih =>
    rw [List.getLastD_cons] at hrest
    obtain ⟨polls, hpolled⟩ := ih hrest
    exact ⟨_, .poll unfinished early told lookup hpolled⟩

/-- With a positive interval polling follows its rules, and ends without patience. -/
theorem untilTerminal_polled (b : Backend σ) (hinterval : 0 < interval) (patience deadline : Nat)
    (job : JobRecord) (w : World σ) :
    ∃ polls, Polled b interval deadline w job polls
      (untilTerminal b interval patience deadline job w) := by
  generalize hresult : untilTerminal b interval patience deadline job w = result
  cases concludes_of_untilTerminal hresult with
  | finished watch terminal => exact watch.polled (.finished terminal)
  | timedOut watch unfinished expired => exact watch.polled (.timedOut unfinished expired)
  | failed watch unfinished early told failure =>
    exact watch.polled (.failed unfinished early told failure)
  | overflow watch unfinished early untold => exact watch.polled (.overflow unfinished early untold)
  | @unsettled answers w' watch unfinished early used =>
    have hnow := watch.min_le_now
    have hlength := Nat.le_mul_of_pos_right answers.length hinterval
    omega

namespace Polled

variable {w : World σ} {job : JobRecord} {polls : List Poll}
  {result : Except Stop Ending × World σ}

theorem length_le (hinterval : 0 < interval) (h : Polled b interval deadline w job polls result) :
    polls.length ≤ turns interval (deadline - w.now) := by
  induction h with
  | finished terminal => exact Nat.zero_le _
  | timedOut unfinished late => exact Nat.zero_le _
  | overflow unfinished early untold => exact Nat.zero_le _
  | @failed w w' job f unfinished early told lookup =>
    have hleft : 0 < deadline - w.now := by omega
    have hstep := turns_step hinterval hleft
    simp only [List.length_singleton]
    omega
  | @poll w v job next polls result unfinished early told lookup rest ih =>
    have hdue := due_le_now early lookup
    have hleft : 0 < deadline - w.now := by omega
    have hstep := turns_step hinterval hleft
    have hless : deadline - v.now ≤ deadline - w.now - min interval (deadline - w.now) := by
      simp only [due] at hdue
      omega
    have hturns : turns interval (deadline - v.now) ≤ _ := turns_mono hless
    simp only [List.length_cons]
    omega

/-- No poll comes earlier than the intervals before it allow, and none after the deadline. -/
theorem issued (h : Polled b interval deadline w job polls result) :
    ∀ k poll, polls[k]? = some poll →
      min (w.now + (k + 1) * interval) deadline ≤ poll.issued ∧ poll.issued ≤ deadline := by
  induction h with
  | finished terminal => simp
  | timedOut unfinished late => simp
  | overflow unfinished early untold => simp
  | @failed w w' job f unfinished early told lookup =>
    intro k poll hk
    obtain ⟨rfl, rfl⟩ : k = 0 ∧ _ = poll := by
      cases k with
      | zero => exact ⟨rfl, Option.some.inj hk⟩
      | succ k => simp at hk
    simp only [due]
    omega
  | @poll w v job next polls result unfinished early told lookup rest ih =>
    intro k poll hk
    cases k with
    | zero =>
      obtain rfl := Option.some.inj hk
      simp only [due]
      omega
    | succ k =>
      have hdue := due_le_now early lookup
      have hmore := ih k poll hk
      simp only [due, Nat.add_mul] at hdue hmore ⊢
      omega

/-- The calls are those of the polls. -/
theorem calls_eq (h : Polled b interval deadline w job polls result) :
    result.2.calls = w.calls ++ polls.flatMap Poll.visits := by
  have hvisits {w v : World σ} {job : JobRecord} {answer : Except Failure JobRecord}
      (early : w.now < deadline)
      (lookup : Desk.operate b (.getJob job.jobId) (w.wait (due interval deadline w)) =
        (answer, v)) :
      v.calls = w.calls ++ Poll.visits ⟨due interval deadline w, job.jobId, answer⟩ := by
    have hcalls := Desk.calls_of_lookup lookup
    rwa [now_wait_due early] at hcalls
  induction h with
  | finished terminal => simp
  | timedOut unfinished late => simp
  | overflow unfinished early untold => simp
  | failed unfinished early told lookup =>
    rw [hvisits early lookup]
    simp
  | poll unfinished early told lookup rest ih =>
    rw [ih, hvisits early lookup]
    simp

/-- How the result of polling comes from the records seen and the polls. -/
theorem result_cases (h : Polled b interval deadline w job polls result) :
    (∃ r, result.1 = .ok (.finished r) ∧ (seen job polls).getLast? = some r ∧
        r.status.isTerminal = true) ∨
      (∃ r, result.1 = .ok (.timedOut r) ∧ (seen job polls).getLast? = some r ∧
        (∀ r ∈ seen job polls, r.status.isTerminal = false) ∧ deadline ≤ result.2.now) ∨
      (∃ f before poll, result.1 = .error (.failed f) ∧ polls = before ++ [poll] ∧
        poll.answer = .error f) ∨
      result.1 = .error .overflow ∧ (∀ r ∈ seen job polls, r.status.isTerminal = false) ∧
        result.2.now < deadline ∧ w.last < result.2.now + interval := by
  induction h with
  | @finished w job terminal => exact .inl ⟨job, rfl, rfl, terminal⟩
  | @timedOut w job unfinished late =>
    exact .inr (.inl ⟨job, rfl, rfl, by simpa [seen] using unfinished, late⟩)
  | overflow unfinished early untold =>
    exact .inr (.inr (.inr ⟨rfl, by simpa [seen] using unfinished, early, untold⟩))
  | failed unfinished early told lookup => exact .inr (.inr (.inl ⟨_, [], _, rfl, rfl, rfl⟩))
  | @poll w v job next polls result unfinished early told lookup rest ih =>
    have hseen : seen job (⟨due interval deadline w, job.jobId, .ok next⟩ :: polls) =
        job :: seen next polls := rfl
    have hlast : (job :: seen next polls).getLast? = (seen next polls).getLast? :=
      List.getLast?_cons_cons
    have hclock : v.last = w.last := (Desk.last_of_operate lookup).trans (World.last_wait _ _)
    rw [hseen, hlast]
    rcases ih with hfinished | ⟨r, hresult, hr, hall, hlate⟩ |
      ⟨f, before, poll, hresult, rfl, hpoll⟩ | ⟨hresult, hall, hearly, huntold⟩
    · exact .inl hfinished
    · exact .inr (.inl ⟨r, hresult, hr, List.forall_mem_cons.mpr ⟨unfinished, hall⟩, hlate⟩)
    · exact .inr (.inr (.inl ⟨f, _ :: before, poll, hresult, rfl, hpoll⟩))
    · exact .inr (.inr (.inr ⟨hresult, List.forall_mem_cons.mpr ⟨unfinished, hall⟩, hearly,
        hclock ▸ huntold⟩))

/-- When polls take no time and none of them ends polling, each is made as early as it can be, and
there are as many as fit before the deadline. -/
theorem steady (hinterval : 0 < interval)
    (hquick : ∀ jobId now state, (b.serve (.getJob jobId) now state).latency = 0)
    (h : Polled b interval deadline w job polls result) {r : JobRecord}
    (hresult : result.1 = .ok (.timedOut r)) :
    polls.length = turns interval (deadline - w.now) ∧
      (∀ k poll, polls[k]? = some poll →
        poll.issued = min (w.now + (k + 1) * interval) deadline) ∧
      result.2.now = max w.now deadline := by
  induction h with
  | finished terminal => cases hresult
  | timedOut unfinished late =>
    rw [Nat.sub_eq_zero_of_le late, turns_zero hinterval]
    exact ⟨rfl, by simp, (Nat.max_eq_left late).symm⟩
  | overflow unfinished early untold => cases hresult
  | failed unfinished early told lookup => cases hresult
  | @poll w v job next polls result unfinished early told lookup rest ih =>
    obtain ⟨hlength, hissued, hnow⟩ := ih hresult
    have hv : v.now = min (w.now + interval) deadline := by
      have hnow := Desk.now_of_operate_ok lookup
      rwa [hquick, now_wait_due early] at hnow
    have hleft : 0 < deadline - w.now := by omega
    have hstep := turns_step hinterval hleft
    have hless : deadline - v.now = deadline - w.now - min interval (deadline - w.now) := by omega
    rw [← hless, ← hlength] at hstep
    refine ⟨by simpa using hstep, ?_, by omega⟩
    intro k poll hk
    cases k with
    | zero =>
      obtain rfl := Option.some.inj hk
      simp only [due]
      omega
    | succ k =>
      rw [hissued k poll hk, hv]
      simp only [Nat.add_mul]
      omega

end Polled

/-- There is no end to polling only where there is no wait between the polls. -/
theorem interval_eq_zero {patience : Nat} {job : JobRecord} {w w' : World σ}
    (h : untilTerminal b interval patience deadline job w = (.error .unsettled, w')) :
    interval = 0 := by
  refine Nat.eq_zero_of_not_pos fun hinterval => ?_
  obtain ⟨polls, hpolled⟩ := untilTerminal_polled b hinterval patience deadline job w
  rw [h] at hpolled
  rcases hpolled.result_cases with ⟨_, ⟨⟩, _⟩ | ⟨_, ⟨⟩, _⟩ | ⟨_, _, _, ⟨⟩, _⟩ | ⟨⟨⟩, _⟩

end Polling
end RobotDesk
