import RobotDesk.Orchestrator
import RobotDesk.Proofs.Encoding

/-!
What is sent to the real orchestrator, and what comes back.

A request with a filter carries it so that it can be read there again.  An answer that is no failure
was understood from a response.  A response with a success is not followed anywhere, so that it
decides the answer alone.  The record of a job row has the status that the row names, and the
process of the row if it names one.
-/
namespace RobotDesk

namespace OData.JobRow

/-- What a record takes from its row. -/
theorem record?_eq_ok {row : JobRow} {processKey : Option String} {r : JobRecord}
    (h : row.record? processKey = .ok r) :
    r.processKey = (row.releaseName.or processKey).getD "" ∧ row.state = some r.status.name ∧
      ∃ output, r.outputArguments = outputIn r.status output := by
  obtain ⟨jobId, -, h⟩ := ok_of_bind h
  obtain ⟨status, hstatus, h⟩ := ok_of_bind h
  obtain ⟨createdAt, -, h⟩ := ok_of_bind h
  obtain ⟨output, -, h⟩ := ok_of_bind h
  obtain ⟨startedAt, -, h⟩ := ok_of_bind h
  obtain ⟨endedAt, -, h⟩ := ok_of_bind h
  cases h
  refine ⟨rfl, ?_, output, rfl⟩
  unfold status? at hstatus
  split at hstatus
  · cases hstatus
  · rename_i s hstate
    split at hstatus
    · rename_i hname
      cases hstatus
      rw [hstate, (JobStatus.ofName?_eq_some_iff s status).mp hname]
    · cases hstatus

/-- A row that names its process needs no other. -/
theorem record?_of_releaseName {row : JobRow} {name : String} (h : row.releaseName = some name)
    (processKey : Option String) : row.record? processKey = row.record? none := by
  simp only [record?, h, Option.some_or]

end OData.JobRow

namespace Orchestrator

open Wire

variable {ν : Type} {n : Network ν} {a : Access}

/-- An address below the base can be asked: the whole is an address, on one of the hosts, without a
query, and the headers can be sent. -/
structure Access.Reaches (a : Access) (hosts : Hosts) (path : String) (url : Url) : Prop where
  address : Url.ofText? hosts (a.baseUrl ++ path) = some url
  query : url.query = none
  headers : a.headers.all (Headers.canSend ·.2) = true

/-- An address with a filter, if there is one. -/
def filtered (url : Url) : Option String → Url
  | none => url
  | some e => url.withParameter "$filter" e

namespace Access.Reaches

variable {hosts : Hosts} {path : String} {url : Url}

theorem request?_eq (h : a.Reaches hosts path url) (method : Method) (filter : Option String)
    (body : Option Json) : a.request? hosts method path (filter.map ("$filter", ·)) body =
      some ⟨method, filtered url filter, a.headers, body.map Json.render⟩ := by
  cases filter <;> simp [request?, h.address, filtered]

theorem place_filtered (h : a.Reaches hosts path url) (filter : Option String) :
    (filtered url filter).place = url := by
  have hplace : url.place = url := by rw [Url.place, ← h.query]
  cases filter <;> exact hplace

theorem parameter?_filtered (h : a.Reaches hosts path url) (filter : Option String) :
    (filtered url filter).parameter? "$filter" = filter := by
  cases filter with
  | none => simp [filtered, Url.parameter?, h.query]
  | some e => exact Url.parameter?_withParameter h.query "$filter" e

end Access.Reaches

/-- An answer that is no failure was understood from a response. -/
theorem interpret_of_serve {call : Call} {now : Nat} {s : ν} {answer : call.Answer}
    (h : ((orchestrator n a).serve call now s).answer = .ok answer) :
    ∃ response, interpret call response = .ok answer := by
  simp only [orchestrator] at h
  split at h
  · cases h
  · split at h
    · cases h
    · rename_i response _ _
      exact ⟨response, h⟩

theorem redirected?_of_success (hosts : Hosts) (request : Request) {response : Response}
    (h : response.isSuccess = true) : request.redirected? hosts response = none := by
  simp only [Response.isSuccess, Bool.and_eq_true, decide_eq_true_eq] at h
  unfold Request.redirected?
  grind

theorem exchange_of_success {request : Request} {response : Response} {s s' : ν}
    (hcan : request.canSend = true) (hsend : n.send request s = (some response, s'))
    (hsuccess : response.isSuccess = true) : n.exchange request s = (some response, s') := by
  rw [Network.exchange, if_pos hcan, Network.follow]
  simp only [hsend, redirected?_of_success n.hosts request hsuccess]

/-- A success is what the answer is made from. -/
theorem serve_of_success {call : Call} {request : Request} {response : Response} {s s' : ν}
    (hrequest : a.requestFor? n.hosts call = some request) (hcan : request.canSend = true)
    (hsend : n.send request s = (some response, s')) (hsuccess : response.isSuccess = true)
    (now : Nat) : (orchestrator n a).serve call now s = ⟨interpret call response, s', 0⟩ := by
  simp only [orchestrator, hrequest, exchange_of_success hcan hsend hsuccess]

theorem checked_of_success {response : Response} (h : response.isSuccess = true)
    (missing : Option String) : checked response missing = .ok () := by
  simp only [checked, h, if_true]

theorem body_of_decode {α : Type} {c : Json.Codec α} {response : Response} {v : α}
    (hcomplete : response.complete = true) (h : c.decode (Text.ofBytes response.body) = .ok v) :
    body c response = .ok v := by
  simp only [body, hcomplete, if_true, h]

end Orchestrator
end RobotDesk
