import RobotDesk.Asset
import RobotDesk.Failure
import RobotDesk.Job

/-!
Orchestrators as a desk sees them, and sessions with one.

An orchestrator is asked one call after the other.  Its answer to a call may depend on its state and
on the time, and takes some time itself.  A session keeps the state, the time since it was opened in
nanoseconds, and the calls that were made with their times, the latest first.

An operation succeeds or fails.  Work that consists of operations and waits can end in two more ways
without a result.  Its clock tells times up to a last one only, and work that asks for a later time
is broken off there.  And work that would go on without a wait is not followed for ever.
-/
namespace RobotDesk

open Time

/-- What can be asked of an orchestrator. -/
inductive Call where
  | startJob (request : JobRequest)
  | getJob (jobId : String)
  | listJobs (filter : JobFilter)
  | setAsset (asset : AssetValue)
  | getAsset (name : String)
  | health
deriving Repr

/-- What a call is answered with when it succeeds. -/
abbrev Call.Answer : Call → Type
  | .startJob _ => JobRecord
  | .getJob _ => JobRecord
  | .listJobs _ => List JobRecord
  | .setAsset _ => Unit
  | .getAsset _ => AssetValue
  | .health => Unit

/-- An answer, the state of the orchestrator after it, and the nanoseconds it took. -/
structure Reply (σ α : Type) where
  answer : Except Failure α
  state : σ
  latency : Nat := 0

structure Backend (σ : Type) where
  /-- Whether this is a simulation. -/
  simulated : Bool
  serve : (call : Call) → (now : Nat) → σ → Reply σ call.Answer

/-- A call that was made, and when. -/
structure Visit where
  time : Nat
  call : Call
deriving Repr

/-- The last time that a clock with 64 bits of seconds, one of them for the sign, can tell. -/
def lastTime : Nat := 9223372036854775807999999999

structure World (σ : Type) where
  state : σ
  opened : Timestamp
  now : Nat := 0
  /-- The last time that the clock can tell. -/
  last : Nat := lastTime
  visits : List Visit := []

namespace World

variable {σ : Type}

/-- The calls made so far, in their order. -/
def calls (w : World σ) : List Visit := w.visits.reverse

/-- The date and time. -/
def clock (w : World σ) : Timestamp :=
  (w.opened.add? w.now).getD Timestamp.latest

/-- The world after one call. -/
def visit (w : World σ) (call : Call) (state : σ) (latency : Nat) : World σ :=
  { w with state := state, now := w.now + latency, visits := ⟨w.now, call⟩ :: w.visits }

/-- The world once a time has come. -/
def wait (w : World σ) (until_ : Nat) : World σ := { w with now := max w.now until_ }

@[simp] theorem calls_visit (w : World σ) (call : Call) (state : σ) (latency : Nat) :
    (w.visit call state latency).calls = w.calls ++ [⟨w.now, call⟩] := by
  simp [visit, calls]

@[simp] theorem calls_wait (w : World σ) (until_ : Nat) : (w.wait until_).calls = w.calls := rfl

@[simp] theorem now_wait (w : World σ) (until_ : Nat) : (w.wait until_).now = max w.now until_ :=
  rfl

@[simp] theorem last_wait (w : World σ) (until_ : Nat) : (w.wait until_).last = w.last := rfl

end World

/-- What succeeds in a state leads on. -/
theorem bind_of_ok {ε s α β : Type} {x : ExceptT ε (StateM s) α} {w v : s} {a : α}
    (h : x w = (.ok a, v)) (f : α → ExceptT ε (StateM s) β) : (x >>= f) w = f a v := by
  change ExceptT.bindCont f (x w).1 (x w).2 = _
  rw [h]
  rfl

/-- What fails in a state leads no further. -/
theorem bind_of_error {ε s α β : Type} {x : ExceptT ε (StateM s) α} {w v : s} {e : ε}
    (h : x w = (.error e, v)) (f : α → ExceptT ε (StateM s) β) : (x >>= f) w = (.error e, v) := by
  change ExceptT.bindCont f (x w).1 (x w).2 = _
  rw [h]
  rfl

/-- An operation that talks to an orchestrator and may fail. -/
abbrev Session (σ : Type) := ExceptT Failure (StateM (World σ))

namespace Session

variable {σ : Type}

/-- Asks an orchestrator. -/
def ask (b : Backend σ) (call : Call) : Session σ call.Answer := fun w =>
  let reply := b.serve call w.now w.state
  (reply.answer, w.visit call reply.state reply.latency)

/-- Asking adds one call to those made. -/
theorem calls_ask (b : Backend σ) (call : Call) (w : World σ) :
    (ask b call w).2.calls = w.calls ++ [⟨w.now, call⟩] :=
  w.calls_visit call _ _

def fail {α : Type} (f : Failure) : Session σ α := fun w => (.error f, w)

end Session

/-- Why work ends without a result. -/
inductive Stop where
  /-- An operation failed. -/
  | failed (f : Failure)
  /-- A time was asked for that the clock cannot tell. -/
  | overflow
  /-- There was no end to it as far as it was followed. -/
  | unsettled
deriving DecidableEq, Repr

/-- Work that consists of operations and waits. -/
abbrev Work (σ : Type) := ExceptT Stop (StateM (World σ))

namespace Work

variable {σ α : Type}

/-- An operation as work; it stops if the operation fails. -/
def ofSession (x : Session σ α) : Work σ α := fun w =>
  match x w with
  | (.ok a, w) => (.ok a, w)
  | (.error f, w) => (.error (.failed f), w)

instance : MonadLift (Session σ) (Work σ) := ⟨ofSession⟩

theorem lift_of_ok {x : Session σ α} {w v : World σ} {a : α} (h : x w = (.ok a, v)) :
    (liftM x : Work σ α) w = (.ok a, v) := by
  change ofSession x w = _
  rw [ofSession, h]

theorem lift_of_error {x : Session σ α} {w v : World σ} {f : Failure} (h : x w = (.error f, v)) :
    (liftM x : Work σ α) w = (.error (.failed f), v) := by
  change ofSession x w = _
  rw [ofSession, h]

/-- Work that consists of one operation fails as the operation does. -/
theorem of_lift_failed {x : Session σ α} {w v : World σ} {f : Failure}
    (h : (liftM x : Work σ α) w = (.error (.failed f), v)) : x w = (.error f, v) := by
  cases hx : x w with
  | mk answer u =>
  cases answer with
  | ok a => cases (lift_of_ok hx).symm.trans h
  | error g =>
    cases (lift_of_error hx).symm.trans h
    rfl

def stop (reason : Stop) : Work σ α := fun w => (.error reason, w)

/-- The time since the session was opened. -/
def now : Work σ Nat := fun w => (.ok w.now, w)

/-- The time after some more, if the clock can tell it. -/
def later (time : Nat) : Work σ Nat := fun w =>
  if w.now + time ≤ w.last then (.ok (w.now + time), w) else (.error .overflow, w)

theorem later_of_le {time : Nat} {w : World σ} (h : w.now + time ≤ w.last) :
    later time w = (.ok (w.now + time), w) :=
  if_pos h

theorem later_of_lt {time : Nat} {w : World σ} (h : w.last < w.now + time) :
    later time w = (.error .overflow, w) :=
  if_neg (Nat.not_le.mpr h)

/-- Waits until a time has come. -/
def sleepUntil (time : Nat) : Work σ Unit := fun w => (.ok (), w.wait time)

end Work
end RobotDesk
