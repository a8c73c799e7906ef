import RobotDesk.Proofs.FilterText
import RobotDesk.Proofs.Received
import RobotDesk.Proofs.RowText
import RobotDesk.Simulation.Orchestrator

/-!
Jobs are listed alike wherever they are filtered.

The real orchestrator is sent the filter as an expression, and selects rows of its table by it; rows
that cannot be understood are left out afterwards.  The simulation lists all jobs and filters their
records.  Both come to the same: a listing with a filter is the listing of all jobs without those
that the filter does not accept.
-/
namespace RobotDesk

open OData Wire

namespace OData

/-- The text in a column of a job row. -/
def JobRow.text? (row : JobRow) : String → Option String
  | "ReleaseName" => row.releaseName
  | "State" => row.state
  | "CreationTime" => row.creationTime
  | "StartTime" => row.startTime
  | "EndTime" => row.endTime
  | "Info" => row.info
  | "OutputArguments" => row.outputArguments
  | _ => none

/-- Whether a clause holds of a row. -/
def JobRow.satisfies (row : JobRow) (c : Clause) : Bool := row.text? c.field = some c.literal

/-- The rows of a table that an expression selects, if it can be read; all without an expression. -/
def selected? (table : List JobRow) : Option String → Option (List JobRow)
  | none => some table
  | some e => (clauses? e).map fun cs => table.filter fun row => cs.all row.satisfies

end OData

/-- A network on which the jobs of a table are found at an address: each request for it is answered
with the rows that its filter selects, in their order. -/
structure ServesJobs {ν : Type} (n : Network ν) (place : Url) (table : List JobRow) : Prop where
  answers : ∀ (request : Request) (s : ν) (rows : List JobRow), request.method = .get →
    request.url.place = place → selected? table (request.url.parameter? "$filter") = some rows →
    ∃ response s', n.send request s = (some response, s') ∧ response.isSuccess = true ∧
      response.complete = true ∧
      (Rows.codec JobRow.codec).decode (Text.ofBytes response.body) = .ok ⟨rows⟩

/-- A network on which the jobs of a table are found at an address, and nothing else. -/
def jobServer (place : Url) (table : List JobRow) : Network Unit where
  hosts := .all
  send request s :=
    if request.method = .get ∧ request.url.place = place then
      match selected? table (request.url.parameter? "$filter") with
      | some rows =>
        (some { status := 200, body := Text.utf8 (collectionText (rows.map (·.toJson.render))) }, s)
      | none => (some { status := 400 }, s)
    else (some { status := 404 }, s)

theorem mem_of_selected? {table rows : List JobRow} {filter : Option String}
    (h : selected? table filter = some rows) : ∀ row ∈ rows, row ∈ table := by
  cases filter with
  | none =>
    obtain rfl := Option.some.inj h
    exact fun _ hrow => hrow
  | some e =>
    obtain ⟨cs, -, rfl⟩ := Option.map_eq_some_iff.mp h
    exact fun _ hrow => (List.mem_filter.mp hrow).1

/-- Any jobs can be served, if their ids are texts. -/
theorem servesJobs_jobServer (place : Url) {table : List JobRow}
    (hids : ∀ row ∈ table, ∃ id, row.id = some (.string id)) :
    ServesJobs (jobServer place table) place table where
  answers := by
    intro request s rows hmethod hplace hselected
    have hspelled : ∀ p ∈ rows.map fun row => (row.toJson.render, row), ∀ depth,
        Json.Spells (JobRow.codec.read (depth + 1)) p.1 p.2 := by
      intro p hp depth
      obtain ⟨row, hrow, rfl⟩ := List.mem_map.mp hp
      obtain ⟨id, hid⟩ := hids row (mem_of_selected? hselected row hrow)
      exact JobRow.codec_spells hid depth
    have hread := Rows.decode_utf8 _ hspelled
    simp only [List.map_map, Function.comp_def, List.map_id'] at hread
    refine ⟨{ status := 200, body := Text.utf8 (collectionText (rows.map (·.toJson.render))) }, s,
      ?_, rfl, rfl, hread⟩
    simp only [jobServer, hmethod, hplace, and_self, if_true, hselected]

/-- The expression that is sent for a filter selects what its clauses hold of. -/
theorem selected?_jobExpression? (table : List JobRow) (f : JobFilter) :
    selected? table (jobExpression? f) =
      some (table.filter fun row => (jobClauses f).all row.satisfies) := by
  unfold jobExpression?
  split
  · rename_i hempty
    obtain ⟨processKey, status⟩ := f
    simp only [JobFilter.isEmpty, Bool.and_eq_true, Option.isNone_iff_eq_none] at hempty
    obtain ⟨rfl, rfl⟩ := hempty
    exact congrArg some (List.filter_eq_self.mpr fun _ _ => rfl).symm
  · rename_i hempty
    have hclauses := clauses?_expression (jobClauses_ne_nil (by simpa using hempty))
      (isField_jobClauses f)
    simp [selected?, hclauses]

/-- A record is accepted if the clauses hold of its row. -/
theorem accepts_of_record? {row : JobRow} {name : String} (hname : row.releaseName = some name)
    {r : JobRecord} (h : row.record? none = .ok r) (f : JobFilter) :
    f.accepts r = (jobClauses f).all row.satisfies := by
  obtain ⟨hkey, hstate, -⟩ := JobRow.record?_eq_ok h
  rw [hname, Option.some_or, Option.getD_some] at hkey
  obtain ⟨processKey, status⟩ := f
  have hkeys : ∀ key, row.satisfies ⟨"ReleaseName", key⟩ = decide (key = r.processKey) := by
    intro key
    simp [JobRow.satisfies, JobRow.text?, hname, hkey, eq_comm]
  have hstates : ∀ st : JobStatus, row.satisfies ⟨"State", st.name⟩ = decide (st = r.status) := by
    intro st
    simp [JobRow.satisfies, JobRow.text?, hstate, JobStatus.name_inj, eq_comm]
  cases processKey <;> cases status <;> simp [JobFilter.accepts, jobClauses, hkeys, hstates]

namespace Orchestrator

theorem listed_cons_error {key : Option String} {row : JobRow} {e : Failure}
    (h : row.record? key = .error e) (rows : List JobRow) :
    listed key (row :: rows) = listed key rows :=
  List.filterMap_cons_none (by rw [h]; rfl)

theorem listed_cons_ok {key : Option String} {row : JobRow} {r : JobRecord}
    (h : row.record? key = .ok r) (rows : List JobRow) :
    listed key (row :: rows) = r :: listed key rows :=
  List.filterMap_cons_some (by rw [h]; rfl)

/-- To select rows and to filter records is the same. -/
theorem listed_filter {table : List JobRow}
    (hnames : ∀ row ∈ table, row.releaseName.isSome = true) (f : JobFilter) :
    listed f.processKey (table.filter fun row => (jobClauses f).all row.satisfies) =
      (listed none table).filter f.accepts := by
  induction table with
  | nil => rfl
  | cons row table ih =>
    have htable := ih fun other hother => hnames other (List.mem_cons_of_mem row hother)
    obtain ⟨name, hname⟩ := Option.isSome_iff_exists.mp (hnames row List.mem_cons_self)
    have hrow := JobRow.record?_of_releaseName hname f.processKey
    rw [List.filter_cons]
    cases hrecord : row.record? none with
    | error e =>
      rw [listed_cons_error hrecord, ← htable]
      split
      · exact listed_cons_error (hrow.trans hrecord) _
      · rfl
    | ok r =>
      rw [listed_cons_ok hrecord, List.filter_cons, accepts_of_record? hname hrecord f, ← htable]
      split
      · exact listed_cons_ok (hrow.trans hrecord) _
      · rfl

variable {ν : Type} {n : Network ν} {a : Access} {url : Url} {table : List JobRow}

/-- A listing of the jobs that a table holds. -/
theorem serve_listJobs (hreaches : a.Reaches n.hosts "/api/v1/odata/Jobs" url)
    (hserves : ServesJobs n url table) (hnames : ∀ row ∈ table, row.releaseName.isSome = true)
    (f : JobFilter) (now : Nat) (s : ν) :
    ((orchestrator n a).serve (.listJobs f) now s).answer =
      .ok ((listed none table).filter f.accepts) := by
  have hrequest : a.requestFor? n.hosts (.listJobs f) =
      some ⟨.get, filtered url (jobExpression? f), a.headers, none⟩ :=
    hreaches.request?_eq .get (jobExpression? f) none
  have hselected := selected?_jobExpression? table f
  rw [← hreaches.parameter?_filtered (jobExpression? f)] at hselected
  obtain ⟨response, s', hsend, hsuccess, hcomplete, hrows⟩ :=
    hserves.answers ⟨.get, filtered url (jobExpression? f), a.headers, none⟩ s _ rfl
      (hreaches.place_filtered (jobExpression? f)) hselected
  rw [serve_of_success hrequest hreaches.headers hsend hsuccess, ← listed_filter hnames f]
  simp only [interpret, checked_of_success hsuccess, body_of_decode hcomplete hrows]
  rfl

/-- When no request can be sent, all listings fail alike. -/
theorem serve_listJobs_unsent
    (h : ∀ url, Url.ofText? n.hosts (a.baseUrl ++ "/api/v1/odata/Jobs") = some url →
      a.headers.all (Headers.canSend ·.2) = false) (f : JobFilter) (now : Nat) (s : ν) :
    ((orchestrator n a).serve (.listJobs f) now s).answer = .error (.unreachable elided) := by
  cases hurl : Url.ofText? n.hosts (a.baseUrl ++ "/api/v1/odata/Jobs") with
  | none => simp [orchestrator, Access.requestFor?, Access.request?, hurl]
  | some url =>
    have hheaders := h url hurl
    simp [orchestrator, Access.requestFor?, Access.request?, hurl, Network.exchange,
      Request.canSend, hheaders]

end Orchestrator

open Orchestrator in
/-- A listing with a filter is the listing without one, less what the filter does not accept: from
the real orchestrator, if it selects the rows of some table that all name their process; and from
the simulation in any state.  The listing of a table succeeds if the orchestrator can be asked;
otherwise no listing does. -/
theorem listing_filtered_anywhere {ν : Type} (n : Network ν) (a : Access) (table : List JobRow)
    (hnames : ∀ row ∈ table, row.releaseName.isSome = true)
    (hserves : ∀ url, Url.ofText? n.hosts (a.baseUrl ++ "/api/v1/odata/Jobs") = some url →
      url.query = none ∧ ServesJobs n url table) (f : JobFilter) :
    (∀ now now' s s', ((orchestrator n a).serve (.listJobs f) now s).answer =
      ((orchestrator n a).serve (.listJobs {}) now' s').answer.map (·.filter f.accepts)) ∧
    (∀ url, a.Reaches n.hosts "/api/v1/odata/Jobs" url → ∀ now s,
      ((orchestrator n a).serve (.listJobs f) now s).answer =
        .ok ((listed none table).filter f.accepts)) ∧
    (∀ outcome now st, ((Simulation.orchestrator outcome).serve (.listJobs f) now st).answer =
      ((Simulation.orchestrator outcome).serve (.listJobs {}) now st).answer.map
        (·.filter f.accepts)) := by
  have hall : ∀ records : List JobRecord, records.filter (JobFilter.accepts {}) = records :=
    fun records => List.filter_eq_self.mpr fun _ _ => rfl
  have hlists : ∀ url, a.Reaches n.hosts "/api/v1/odata/Jobs" url → ∀ g now s,
      ((orchestrator n a).serve (.listJobs g) now s).answer =
        .ok ((listed none table).filter g.accepts) := fun url hreaches =>
    serve_listJobs hreaches (hserves url hreaches.address).2 hnames
  refine ⟨?_, fun url hreaches => hlists url hreaches f, ?_⟩
  · intro now now' s s'
    by_cases hsent : ∃ url, a.Reaches n.hosts "/api/v1/odata/Jobs" url
    · obtain ⟨url, hreaches⟩ := hsent
      rw [hlists url hreaches, hlists url hreaches, hall]
      rfl
    · have hunsent : ∀ url, Url.ofText? n.hosts (a.baseUrl ++ "/api/v1/odata/Jobs") = some url →
          a.headers.all (Headers.canSend ·.2) = false := by
        intro url hurl
        rw [← Bool.not_eq_true]
        exact fun hheaders => hsent ⟨url, hurl, (hserves url hurl).1, hheaders⟩
      rw [serve_listJobs_unsent hunsent, serve_listJobs_unsent hunsent]
      rfl
  · intro outcome now st
    simp only [Simulation.orchestrator, Simulation.State.list, Except.map, hall]

/-- Three jobs, of processes with quotes in their names; the state of one is not known. -/
def quotedJobs : List JobRow :=
  let job (id process state : String) : JobRow :=
    { id := some (.string id), releaseName := some process, state := some state
      creationTime := some "2026-01-01T00:00:00Z" }
  [job "1" "it's" "Running", job "2" "it's' and State eq 'Running" "Running",
   job "3" "it's" "Waiting"]

open Orchestrator in
/-- For a process one of these jobs is listed: not the one that cannot be understood, and not the
one whose process has a clause in its name. -/
theorem listing_filtered_of_quoted :
    let a : Access := ⟨"http://o", "t", "k"⟩
    let url : Url := ⟨false, "o", ["api", "v1", "odata", "Jobs"], none⟩
    let serve := (orchestrator (jobServer url quotedJobs) a).serve
    ServesJobs (jobServer url quotedJobs) url quotedJobs ∧
      a.Reaches .all "/api/v1/odata/Jobs" url ∧
      (serve (.listJobs { processKey := some "it's" }) 0 ()).answer.toOption.map
        (·.map (·.jobId)) = some ["1"] ∧
      (serve (.listJobs {}) 0 ()).answer.toOption.map (·.map (·.jobId)) = some ["1", "2"] := by
  intro a url serve
  have haddress : Url.ofText? .all (a.baseUrl ++ "/api/v1/odata/Jobs") = some url := by
    decide +kernel
  have hreaches : a.Reaches .all "/api/v1/odata/Jobs" url := ⟨haddress, rfl, by decide⟩
  have hids : ∀ row ∈ quotedJobs, ∃ id, row.id = some (.string id) := by
    intro row hrow
    simp only [quotedJobs, List.mem_cons, List.not_mem_nil, or_false] at hrow
    rcases hrow with rfl | rfl | rfl <;> exact ⟨_, rfl⟩
  have hserves := servesJobs_jobServer url hids
  have hlists := listing_filtered_anywhere (jobServer url quotedJobs) a quotedJobs
    (by decide +kernel) (fun other hother => by
      obtain rfl := Option.some.inj (haddress.symm.trans hother)
      exact ⟨rfl, hserves⟩)
  refine ⟨hserves, hreaches, ?_, ?_⟩
  · rw [(hlists { processKey := some "it's" }).2.1 url hreaches]
    decide +kernel
  · rw [(hlists {}).2.1 url hreaches]
    decide +kernel

end RobotDesk
