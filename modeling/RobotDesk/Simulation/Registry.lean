import RobotDesk.Simulation.Job

/-!
The registry of simulated jobs.

A job is kept for the registry's lifetime after its creation.  When the registry is full, the job
that was created first makes room for a new one; of two created together, the one with the smaller
number.  A job that is gone cannot be told from one that never was.
-/
namespace RobotDesk.Simulation

open Time

structure Registry where
  capacity : Nat
  lifetime : Duration
  jobs : List Job := []
deriving Repr, Inhabited

/-- Whether one job goes before another when room has to be made. -/
def Job.older (a b : Job) : Bool :=
  match a.createdAt.compare b.createdAt with
  | .lt => true
  | .gt => false
  | .eq => a.number < b.number

/-- The job that goes first when room has to be made. -/
def oldest? : List Job → Option Job
  | [] => none
  | job :: rest =>
    match oldest? rest with
    | none => some job
    | some other => if other.older job then some other else some job

namespace Registry

/-- The number of jobs that fit; at least one. -/
def room (r : Registry) : Nat := max r.capacity 1

/-- Whether a job is still kept. -/
def keeps (r : Registry) (now : Timestamp) (job : Job) : Bool :=
  now.since job.createdAt < r.lifetime

/-- Drops the jobs whose lifetime is over. -/
def expire (r : Registry) (now : Timestamp) : Registry :=
  { r with jobs := r.jobs.filter (r.keeps now) }

theorem mem_jobs_expire (r : Registry) (now : Timestamp) (job : Job) :
    job ∈ (r.expire now).jobs ↔ job ∈ r.jobs ∧ r.keeps now job = true := by
  simp [expire]

/-- Drops the job with an id. -/
def remove (r : Registry) (jobId : String) : Registry :=
  { r with jobs := r.jobs.filter (·.jobId ≠ jobId) }

theorem mem_jobs_remove (r : Registry) (jobId : String) (job : Job) :
    job ∈ (r.remove jobId).jobs ↔ job ∈ r.jobs ∧ job.jobId ≠ jobId := by
  simp [remove]

/-- Drops the oldest job if there is no room for another. -/
def makeRoom (r : Registry) : Registry :=
  if r.jobs.length < r.room then r
  else match oldest? r.jobs with
    | none => r
    | some victim => r.remove victim.jobId

/-- Takes a new job in. -/
def insert (r : Registry) (job : Job) (now : Timestamp) : Registry :=
  let r := (r.expire now).makeRoom.remove job.jobId
  { r with jobs := r.jobs ++ [job] }

/-- Brings the jobs that satisfy a test up to date. -/
def refresh (r : Registry) (now : Timestamp) (which : Job → Bool) : Registry :=
  { r with jobs := r.jobs.map fun job => if which job then job.advance now else job }

/-- The record of the job with an id, brought up to date. -/
def get (r : Registry) (jobId : String) (now : Timestamp) : Option JobRecord × Registry :=
  let r := (r.expire now).refresh now (·.jobId = jobId)
  ((r.jobs.find? (·.jobId = jobId)).map Job.snapshot, r)

/-- The records of all jobs, brought up to date.  They have no order among them that counts. -/
def list (r : Registry) (now : Timestamp) : List JobRecord × Registry :=
  let r := (r.expire now).refresh now fun _ => true
  (r.jobs.map Job.snapshot, r)

end Registry
end RobotDesk.Simulation
