import RobotDesk.Endpoint.Router
import RobotDesk.Proofs.Session
import RobotDesk.Script

/-!
How the service answers requests for jobs, for assets and for its health.

Such a request either has a defect, and then it is refused and nothing is asked of the orchestrator,
or it asks for one call.  What is answered in the second case depends on nothing but the answer to
that call.  A field counts as missing when it is left out or empty; a process key and a job id are
also refused when they are blank.
-/
namespace RobotDesk.Endpoint

open Envelope

/-- What the service does by one call. -/
inductive Service where
  | findJobs
  | startJob
  | readAsset
  | setAsset
  | health
deriving DecidableEq, Repr

namespace Service

def method : Service → String
  | .findJobs | .readAsset | .health => "GET"
  | .startJob | .setAsset => "POST"

def path : Service → String
  | .findJobs | .startJob => "/api/akabot/jobs"
  | .readAsset | .setAsset => "/api/akabot/assets"
  | .health => "/health"

end Service

/-- A request for a service, with any query, headers and body. -/
structure Request.IsFor (r : Request) (service : Service) : Prop where
  method : r.method = service.method
  path : r.target.path = service.path

/-- A field that is left out or empty. -/
def Missing (field : Option String) : Prop := field = none ∨ field = some ""

/-- A body that is said to be JSON, is not too large, and is read as a value. -/
structure Request.Carries {α : Type} (r : Request) (c : Json.Codec α) (v : α) : Prop where
  json : r.bringsJson = true
  size : r.body.length ≤ bodyLimit
  reads : c.decode (Text.ofBytes r.body) = .ok v

/-- What may be wrong with a body. -/
inductive Request.BodyDefect {α : Type} (r : Request) (c : Json.Codec α) : Prop where
  | notJson (said : r.bringsJson = false)
  | tooLarge (size : bodyLimit < r.body.length)
  | unread {e : Json.ReadError} (fails : c.decode (Text.ofBytes r.body) = .error e)

/-- What may be wrong with a request for a service. -/
inductive Request.Defect (r : Request) : Service → Prop where
  | queryUnread {f : Failure} (query : r.jobsQuery = .error f) : Defect r .findJobs
  | idBlank {q : JobsQuery} {id : String} (query : r.jobsQuery = .ok q) (given : q.jobId = some id)
      (nonempty : id ≠ "") (blank : Text.isBlankText id = true) : Defect r .findJobs
  | statusUnknown {q : JobsQuery} {s : String} (query : r.jobsQuery = .ok q)
      (noId : Missing q.jobId) (given : q.status = some s)
      (unknown : ∀ st : JobStatus, s ≠ st.name) :
      Defect r .findJobs
  | orderUnread (body : r.BodyDefect JobOrder.codec) : Defect r .startJob
  | keyBlank {order : JobOrder} (body : r.Carries JobOrder.codec order)
      (blank : ∀ key, order.processKey = some key → Text.isBlankText key = true) :
      Defect r .startJob
  | assetQueryUnread {f : Failure} (query : r.assetQuery = .error f) : Defect r .readAsset
  | nameMissing {q : AssetQuery} (query : r.assetQuery = .ok q) (missing : Missing q.name) :
      Defect r .readAsset
  | assetUnread (body : r.BodyDefect AssetOrder.codec) : Defect r .setAsset
  | partMissing {order : AssetOrder} (body : r.Carries AssetOrder.codec order)
      (missing : Missing order.name ∨ Missing order.value) : Defect r .setAsset

/-- The call that a request for a service asks for.  A job id goes before the fields of a filter. -/
inductive Request.Asks (r : Request) : Service → Call → Prop where
  | job {q : JobsQuery} {id : String} (query : r.jobsQuery = .ok q) (given : q.jobId = some id)
      (named : Text.isBlankText id = false) : Asks r .findJobs (.getJob id)
  | jobs {q : JobsQuery} {status : Option JobStatus} (query : r.jobsQuery = .ok q)
      (noId : Missing q.jobId) (known : q.status = status.map JobStatus.name) :
      Asks r .findJobs (.listJobs ⟨q.processKey, status⟩)
  | start {order : JobOrder} {key : String} (body : r.Carries JobOrder.codec order)
      (given : order.processKey = some key) (named : Text.isBlankText key = false) :
      Asks r .startJob (.startJob ⟨key, order.robotName, order.inputArguments.getD .empty⟩)
  | readAsset {q : AssetQuery} {name : String} (query : r.assetQuery = .ok q)
      (given : q.name = some name) (nonempty : name ≠ "") : Asks r .readAsset (.getAsset name)
  | setAsset {order : AssetOrder} {name value : String}
      (body : r.Carries AssetOrder.codec order) (given : order.name = some name)
      (nonempty : name ≠ "") (valueGiven : order.value = some value) (valueNonempty : value ≠ "") :
      Asks r .setAsset (.setAsset ⟨name, order.type.getD .text, value⟩)
  | health : Asks r .health .health

/-- The body of a refusal. -/
def refusal (text : String) : Json := .object [("ok", .bool false), ("error", .string text)]

/-- The body for a call that succeeds: what the orchestrator answered, and whether it is the
simulation. -/
def successBody (mock : Bool) : (call : Call) → call.Answer → Json
  | .startJob _, job | .getJob _, job =>
    .object [("ok", .bool true), ("mock", .bool mock), ("job", job.toJson)]
  | .listJobs _, jobs =>
    .object [("ok", .bool true), ("mock", .bool mock), ("jobs", .array (jobs.map JobRecord.toJson))]
  | .setAsset _, _ => .object [("ok", .bool true), ("mock", .bool mock)]
  | .getAsset _, asset =>
    .object [("ok", .bool true), ("mock", .bool mock), ("asset", asset.toJson)]
  | .health, _ =>
    .object [("ok", .bool true), ("mock", .bool mock), ("upstream", .string "healthy")]

/-- The status and the body for a call that fails. -/
def failureReport (mock : Bool) : Call → Failure → Nat × Json
  | .health, _ => (503, .object [("ok", .bool false), ("mock", .bool mock),
      ("upstream", .string "unreachable")])
  | _, .invalidRequest reason => (400, refusal reason)
  | _, .notFound what => (404, refusal what)
  | _, f => (500, refusal f.message)

/-- The status and the body for what a call is answered with. -/
def callReport (mock : Bool) (call : Call) : Except Failure call.Answer → Nat × Json
  | .ok answer => (200, successBody mock call answer)
  | .error f => failureReport mock call f

theorem ne_empty_of_not_blank {s : String} (h : Text.isBlankText s = false) : s ≠ "" := by
  rintro rfl
  exact absurd h (by decide)

namespace Request.Carries

variable {α : Type} {r : Request} {c : Json.Codec α} {v v' : α}

theorem unique (h : r.Carries c v) (h' : r.Carries c v') : v = v' :=
  Except.ok.inj (h.reads.symm.trans h'.reads)

theorem not_defect (h : r.Carries c v) : ¬ r.BodyDefect c := by
  intro hdefect
  cases hdefect with
  | notJson said => simp [h.json] at said
  | tooLarge size => exact absurd h.size (Nat.not_le.mpr size)
  | unread fails => simp [h.reads] at fails

end Request.Carries

/-- No call is asked for by a request with a defect. -/
theorem Request.Asks.not_defect {r : Request} {service : Service} {call : Call}
    (h : r.Asks service call) : ¬ r.Defect service := by
  intro hdefect
  cases h with
  | job query given named =>
    cases hdefect with
    | queryUnread query' => simp [query] at query'
    | idBlank query' given' nonempty blank =>
      obtain rfl := Except.ok.inj (query.symm.trans query')
      obtain rfl := Option.some.inj (given.symm.trans given')
      simp [blank] at named
    | statusUnknown query' noId given' unknown =>
      obtain rfl := Except.ok.inj (query.symm.trans query')
      have hne := ne_empty_of_not_blank named
      simp_all [Missing]
  | jobs query noId known =>
    cases hdefect with
    | queryUnread query' => simp [query] at query'
    | idBlank query' given nonempty blank =>
      obtain rfl := Except.ok.inj (query.symm.trans query')
      simp_all [Missing]
    | statusUnknown query' noId' given unknown =>
      obtain rfl := Except.ok.inj (query.symm.trans query')
      rw [given] at known
      obtain ⟨st, -, hname⟩ := Option.map_eq_some_iff.mp known.symm
      exact unknown st hname.symm
  | start body given named =>
    cases hdefect with
    | orderUnread body' => exact body.not_defect body'
    | keyBlank body' blank =>
      obtain rfl := body.unique body'
      simp [blank _ given] at named
  | readAsset query given nonempty =>
    cases hdefect with
    | assetQueryUnread query' => simp [query] at query'
    | nameMissing query' missing =>
      obtain rfl := Except.ok.inj (query.symm.trans query')
      simp_all [Missing]
  | setAsset body given nonempty valueGiven valueNonempty =>
    cases hdefect with
    | assetUnread body' => exact body.not_defect body'
    | partMissing body' missing =>
      obtain rfl := body.unique body'
      simp_all [Missing]
  | health => cases hdefect

variable {σ : Type} {b : Backend σ}

/-- What the work for a request comes to: it is refused at once for a defect, or asks for one call
and shows its answer. -/
inductive Handled (b : Backend σ) (r : Request) (service : Service) (work : Session σ Json) :
    Prop where
  | refused {reason : String} (defect : r.Defect service)
      (eq : work = Session.fail (.invalidRequest reason))
  | asked {call : Call} (asks : r.Asks service call)
      (eq : work = do return successBody b.simulated call (← Session.ask b call))

theorem need_error_bind {α β : Type} (f : Failure) (k : α → Session σ β) :
    (need (.error f) >>= k) = Session.fail f :=
  funext fun _ => bind_of_error rfl k

theorem need_ok_bind {α β : Type} (v : α) (k : α → Session σ β) : (need (.ok v) >>= k) = k v :=
  funext fun _ => bind_of_ok rfl k

theorem fail_bind {α β : Type} (f : Failure) (k : α → Session σ β) :
    (Session.fail f >>= k) = Session.fail f :=
  funext fun _ => bind_of_error rfl k

/-- A query that cannot be read is an invalid request. -/
theorem Request.field_error {r : Request} {name : String} {f : Failure}
    (h : r.field name = .error f) : ∃ reason, f = .invalidRequest reason := by
  unfold field at h
  split at h
  · cases h
  · cases h
  · cases h
    exact ⟨_, rfl⟩

theorem error_of_bind {α β : Type} {x : Except Failure α} {k : α → Except Failure β} {f : Failure}
    (h : (x >>= k) = .error f) : x = .error f ∨ ∃ v, k v = .error f := by
  cases x with
  | error f' =>
    cases h
    exact .inl rfl
  | ok v => exact .inr ⟨v, h⟩

theorem Request.jobsQuery_error {r : Request} {f : Failure} (h : r.jobsQuery = .error f) :
    ∃ reason, f = .invalidRequest reason := by
  rcases error_of_bind h with hid | ⟨id, h⟩
  · exact field_error hid
  rcases error_of_bind h with hkey | ⟨key, h⟩
  · exact field_error hkey
  rcases error_of_bind h with hstatus | ⟨status, h⟩
  · exact field_error hstatus
  · cases h

theorem Request.assetQuery_error {r : Request} {f : Failure} (h : r.assetQuery = .error f) :
    ∃ reason, f = .invalidRequest reason := by
  rcases error_of_bind h with hname | ⟨name, h⟩
  · exact field_error hname
  · cases h

theorem exceeds_iff {α : Type} (limit : Nat) (xs : List α) :
    exceeds limit xs = true ↔ limit < xs.length := by
  induction xs generalizing limit with
  | nil => simp [exceeds]
  | cons x xs ih =>
    cases limit with
    | zero => simp [exceeds]
    | succ limit => simpa [exceeds] using ih limit

/-- A body is read unless something is wrong with it, and then the request is invalid. -/
theorem Request.readBody_cases {α : Type} (r : Request) (c : Json.Codec α) :
    (∃ v, r.readBody c = .ok v ∧ r.Carries c v) ∨
      ∃ reason, r.readBody c = .error (.invalidRequest reason) ∧ r.BodyDefect c := by
  unfold readBody
  cases hjson : r.bringsJson with
  | false => exact .inr ⟨_, rfl, .notJson hjson⟩
  | true =>
    simp only [Bool.not_true, Bool.false_eq_true, if_false]
    by_cases hsize : exceeds bodyLimit r.body = true
    · rw [if_pos hsize]
      exact .inr ⟨_, rfl, .tooLarge ((exceeds_iff _ _).mp hsize)⟩
    · rw [if_neg hsize]
      have hfits : r.body.length ≤ bodyLimit := by
        rw [← Nat.not_lt, ← exceeds_iff]
        exact hsize
      cases hreads : c.decode (Text.ofBytes r.body) with
      | ok v => exact .inl ⟨v, rfl, hjson, hfits, hreads⟩
      | error e => exact .inr ⟨_, rfl, .unread hreads⟩

/-- A field that is there and not empty, or that is missing. -/
theorem filter_nonempty_cases (field : Option String) :
    field.filter (!·.isEmpty) = none ∧ Missing field ∨
      ∃ s, field = some s ∧ s ≠ "" ∧ field.filter (!·.isEmpty) = some s := by
  cases field with
  | none => exact .inl ⟨rfl, .inl rfl⟩
  | some s =>
    by_cases hs : s = ""
    · subst hs
      exact .inl ⟨rfl, .inr rfl⟩
    · exact .inr ⟨s, rfl, hs, by simp [hs]⟩

theorem getJobs_handled (b : Backend σ) (r : Request) :
    Handled b r .findJobs (getJobs b r) := by
  unfold getJobs
  cases hq : r.jobsQuery with
  | error f =>
    obtain ⟨reason, rfl⟩ := r.jobsQuery_error hq
    exact .refused (.queryUnread hq) (need_error_bind _ _)
  | ok q =>
    rw [need_ok_bind]
    rcases filter_nonempty_cases q.jobId with ⟨hfilter, hmissing⟩ | ⟨id, hid, hne, hfilter⟩
    · rw [hfilter]
      cases hstatus : q.status with
      | none =>
        have hasks : r.Asks .findJobs (.listJobs ⟨q.processKey, none⟩) := .jobs hq hmissing hstatus
        exact .asked hasks (need_ok_bind _ _)
      | some s =>
        cases hname : JobStatus.ofName? s with
        | none =>
          have hunknown : ∀ st : JobStatus, s ≠ st.name := by
            intro st hst
            rw [(JobStatus.ofName?_eq_some_iff s st).mpr hst] at hname
            cases hname
          simp only [hname]
          exact .refused (.statusUnknown hq hmissing hstatus hunknown) (need_error_bind _ _)
        | some st =>
          have hs := (JobStatus.ofName?_eq_some_iff s st).mp hname
          have hasks : r.Asks .findJobs (.listJobs ⟨q.processKey, some st⟩) :=
            .jobs hq hmissing (by rw [hstatus, hs]; rfl)
          simp only [hname]
          exact .asked hasks (need_ok_bind _ _)
    · rw [hfilter]
      cases hblank : Text.isBlankText id with
      | true =>
        have hproblem : Desk.problem? (.getJob id) = some "jobId is required" := by
          simp [Desk.problem?, hblank]
        have hrefused : Desk.getJob b id = _ := Desk.operate_of_problem hproblem b
        simp only [hrefused]
        exact .refused (.idBlank hq hid hne hblank) (fail_bind _ _)
      | false =>
        have hasked : Desk.getJob b id = _ :=
          Desk.operate_of_no_problem ((Desk.problem?_getJob_eq_none_iff id).mpr hblank) b
        simp only [hasked]
        exact .asked (.job hq hid hblank) rfl

theorem startJob_handled (b : Backend σ) (r : Request) :
    Handled b r .startJob (startJob b r) := by
  unfold startJob
  rcases r.readBody_cases JobOrder.codec with ⟨order, hread, hbody⟩ | ⟨reason, hread, hdefect⟩
  · rw [hread, need_ok_bind]
    cases hkey : present order.processKey with
    | none =>
      refine .refused (.keyBlank hbody ?_) (need_error_bind _ _)
      intro key hgiven
      simpa [present, hgiven] using hkey
    | some key =>
      obtain ⟨hgiven, hnamed⟩ := Option.filter_eq_some_iff.mp hkey
      have hnamed : Text.isBlankText key = false := by simpa using hnamed
      have hasked : Desk.startJob b ⟨key, order.robotName, order.inputArguments.getD .empty⟩ = _ :=
        Desk.operate_of_no_problem ((Desk.problem?_startJob_eq_none_iff _).mpr hnamed) b
      refine .asked (.start hbody hgiven hnamed) ?_
      rw [required, need_ok_bind, hasked]
      rfl
  · rw [hread]
    exact .refused (.orderUnread hdefect) (need_error_bind _ _)

theorem getAsset_handled (b : Backend σ) (r : Request) :
    Handled b r .readAsset (getAsset b r) := by
  unfold getAsset
  cases hq : r.assetQuery with
  | error f =>
    obtain ⟨reason, rfl⟩ := r.assetQuery_error hq
    exact .refused (.assetQueryUnread hq) (need_error_bind _ _)
  | ok q =>
    rw [need_ok_bind]
    rcases filter_nonempty_cases q.name with ⟨hfilter, hmissing⟩ | ⟨name, hname, hne, hfilter⟩
    · rw [hfilter]
      exact .refused (.nameMissing hq hmissing) (need_error_bind _ _)
    · have hproblem : Desk.problem? (.getAsset name) = none := by simp [Desk.problem?, hne]
      have hasked : Desk.getAsset b name = _ := Desk.operate_of_no_problem hproblem b
      refine .asked (.readAsset hq hname hne) ?_
      rw [hfilter, required, need_ok_bind, hasked]
      rfl

theorem setAsset_handled (b : Backend σ) (r : Request) :
    Handled b r .setAsset (setAsset b r) := by
  unfold setAsset
  rcases r.readBody_cases AssetOrder.codec with ⟨order, hread, hbody⟩ | ⟨reason, hread, hdefect⟩
  · rw [hread, need_ok_bind]
    cases hname : order.name with
    | none =>
      exact .refused (.partMissing hbody (.inl (.inl hname))) (need_error_bind _ _)
    | some name =>
      cases hvalue : order.value with
      | none =>
        have hrefused := need_error_bind (σ := σ) (β := Json)
          (.invalidRequest "name and value are required") fun value => do
            Desk.setAsset b ⟨name, order.type.getD .text, value⟩
            return Acknowledgement.toJson ⟨true, b.simulated⟩
        exact .refused (.partMissing hbody (.inr (.inl hvalue))) ((need_ok_bind _ _).trans hrefused)
      | some value =>
        simp only [required, need_ok_bind]
        by_cases hempty : name = "" ∨ value = ""
        · have hproblem : Desk.problem? (.setAsset ⟨name, order.type.getD .text, value⟩) =
              some "name and value are required" := by
            rcases hempty with rfl | rfl <;> simp [Desk.problem?]
          have hrefused : Desk.setAsset b ⟨name, order.type.getD .text, value⟩ = _ :=
            Desk.operate_of_problem hproblem b
          rw [hrefused]
          refine .refused (.partMissing hbody ?_) (fail_bind _ _)
          rcases hempty with rfl | rfl
          · exact .inl (.inr hname)
          · exact .inr (.inr hvalue)
        · obtain ⟨hn, hv⟩ := not_or.mp hempty
          have hproblem :
              Desk.problem? (.setAsset ⟨name, order.type.getD .text, value⟩) = none := by
            simp [Desk.problem?, hn, hv]
          have hasked : Desk.setAsset b ⟨name, order.type.getD .text, value⟩ = _ :=
            Desk.operate_of_no_problem hproblem b
          rw [hasked]
          exact .asked (.setAsset hbody hname hn hvalue hv) rfl
  · rw [hread]
    exact .refused (.assetUnread hdefect) (need_error_bind _ _)

/-- How a request is answered: with a refusal and without a call, or with what its call came to. -/
inductive Answered (b : Backend σ) (r : Request) (service : Service) (w : World σ) :
    Except Stop Response × World σ → Prop where
  | refused {reason : String} {response : Response} (defect : r.Defect service)
      (status : response.status = 400) (body : response.body = some (refusal reason)) :
      Answered b r service w (.ok response, w)
  | asked {call : Call} {response : Response} (asks : r.Asks service call)
      (status : response.status =
        (callReport b.simulated call (b.serve call w.now w.state).answer).1)
      (body : response.body =
        some (callReport b.simulated call (b.serve call w.now w.state).answer).2) :
      Answered b r service w (.ok response, (Session.ask b call w).2)

theorem Request.Asks.ne_health {r : Request} {service : Service} {call : Call}
    (h : r.Asks service call) (hs : service ≠ .health) : call ≠ .health := by
  cases h with
  | health => exact absurd rfl hs
  | _ => simp

/-- A failure of a call that is not for the health is shown as any other failure. -/
theorem failureReport_eq {call : Call} (h : call ≠ .health) (mock : Bool) (f : Failure) :
    failureReport mock call f =
      (Response.statusOf f, Refusal.toJson ⟨false, Response.textOf f⟩) := by
  cases call with
  | health => exact absurd rfl h
  | _ => cases f <;> rfl

theorem Handled.answered {r : Request} {service : Service} {work : Session σ Json}
    (h : Handled b r service work) (hs : service ≠ .health) (w : World σ) :
    Answered b r service w (respond (liftM work) w) := by
  cases h with
  | @refused reason defect eq =>
    have hrespond : respond (liftM work) w = (.ok (.ofFailure (.invalidRequest reason)), w) := by
      rw [respond, eq, Work.lift_of_error (x := Session.fail _) (w := w) rfl]
    rw [hrespond]
    exact .refused defect rfl rfl
  | @asked call asks eq =>
    cases hanswer : (b.serve call w.now w.state).answer with
    | ok answer =>
      have hask : Session.ask b call w = (.ok answer, (Session.ask b call w).2) := by
        rw [← hanswer]
        rfl
      have hrespond : respond (liftM work) w =
          (.ok (.json 200 (successBody b.simulated call answer)), (Session.ask b call w).2) := by
        rw [respond, eq, Work.lift_of_ok (bind_of_ok hask _)]
      rw [hrespond]
      exact .asked asks (by rw [hanswer]; rfl) (by rw [hanswer]; rfl)
    | error f =>
      have hask : Session.ask b call w = (.error f, (Session.ask b call w).2) := by
        rw [← hanswer]
        rfl
      have hrespond : respond (liftM work) w = (.ok (.ofFailure f), (Session.ask b call w).2) := by
        rw [respond, eq, Work.lift_of_error (bind_of_error hask _)]
      rw [hrespond]
      have hreport := failureReport_eq (asks.ne_health hs) b.simulated f
      refine .asked asks ?_ ?_ <;> rw [hanswer, callReport, hreport] <;> rfl

theorem health_answered (b : Backend σ) (r : Request) (w : World σ) :
    Answered b r .health w (health b w) := by
  cases hanswer : (b.serve .health w.now w.state).answer with
  | ok answer =>
    have hhealth : health b w = (.ok (.json 200 (successBody b.simulated .health ())),
        (Session.ask b .health w).2) := by
      have hask : Desk.health b w = (.ok answer, (Session.ask b .health w).2) := by
        rw [← hanswer]
        rfl
      rw [health, hask]
      rfl
    rw [hhealth]
    exact .asked .health (by rw [hanswer]; rfl) (by rw [hanswer]; rfl)
  | error f =>
    have hhealth : health b w = (.ok (.json 503 (failureReport b.simulated .health f).2),
        (Session.ask b .health w).2) := by
      have hask : Desk.health b w = (.error f, (Session.ask b .health w).2) := by
        rw [← hanswer]
        rfl
      rw [health, hask]
      rfl
    rw [hhealth]
    exact .asked .health (by rw [hanswer]; rfl) (by rw [hanswer]; rfl)

theorem answer_answered {r : Request} {service : Service} (h : r.IsFor service) (b : Backend σ)
    (s : Trial.Settings) (w : World σ) : Answered b r service w (answer b s r w) := by
  obtain ⟨hmethod, hpath⟩ := h
  unfold answer
  rw [hmethod, hpath]
  cases service with
  | findJobs => exact (getJobs_handled b r).answered (by decide) w
  | startJob => exact (startJob_handled b r).answered (by decide) w
  | readAsset => exact (getAsset_handled b r).answered (by decide) w
  | setAsset => exact (setAsset_handled b r).answered (by decide) w
  | health => exact health_answered b r w

/-- What the service adds to an answer is a header. -/
theorem serve_answered {r : Request} {service : Service} (h : r.IsFor service) (b : Backend σ)
    (s : Trial.Settings) (w : World σ) : Answered b r service w (serve b s r w) := by
  have hanswered := answer_answered h b s w
  generalize hresult : answer b s r w = result at hanswered
  cases hanswered with
  | refused defect status body =>
    rw [serve, bind_of_ok hresult]
    exact .refused defect status body
  | asked asks status body =>
    rw [serve, bind_of_ok hresult]
    exact .asked asks status body

/-- A request for the asset with a name, as it stands in a query. -/
def assetRequest (name : String) : Request where
  target := .origin ⟨"/api/akabot/assets", some ("name=" ++ name)⟩

end RobotDesk.Endpoint
