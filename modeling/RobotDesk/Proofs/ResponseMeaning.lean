import RobotDesk.Proofs.JobListing
import RobotDesk.Proofs.RowMeaning

/-!
What becomes of a call to the real orchestrator.

The exchange for a call ends with the first response that does not point elsewhere, or without one.
A status that is no success is refused before the body is looked at.  The body of a success is
understood in stages: as JSON, as the row that it speaks of, and column by column.  Each stage gives
exactly what it is told and fails as undecodable otherwise, so that the failure of a call says how
its exchange ended.
-/
namespace RobotDesk

namespace Wire

variable {ν : Type}

/-- How sending a request ends, if at most a number of redirections is followed: with the first
response that does not point elsewhere, or with none. -/
inductive Network.Ends (n : Network ν) : Nat → Request → ν → Option Response → Prop where
  | silent {hops : Nat} {request : Request} {s s' : ν} (h : n.send request s = (none, s')) :
      Ends n hops request s none
  | answered {hops : Nat} {request : Request} {s s' : ν} {response : Response}
      (h : n.send request s = (some response, s'))
      (hlast : request.redirected? n.hosts response = none) :
      Ends n hops request s (some response)
  | lost {request next : Request} {s s' : ν} {response : Response}
      (h : n.send request s = (some response, s'))
      (hmoved : request.redirected? n.hosts response = some next) : Ends n 0 request s none
  | moved {hops : Nat} {request next : Request} {s s' : ν} {response : Response}
      {final : Option Response} (h : n.send request s = (some response, s'))
      (hmoved : request.redirected? n.hosts response = some next)
      (hnext : Ends n hops next s' final) :
      Ends n (hops + 1) request s final

end Wire

namespace Orchestrator

open Wire OData

/-- What the body of a response reads as, if the whole of it arrived. -/
def Reads {α : Type} (c : Json.Codec α) (response : Response) (v : α) : Prop :=
  response.complete = true ∧ c.decode (Text.ofBytes response.body) = .ok v

/-- The responses by which what a call asks for is not there: a job by its status, an asset by a
success without rows. -/
inductive Missing : Call → Response → String → Prop where
  | job (jobId : String) {response : Response} (h : response.status = 404) :
      Missing (.getJob jobId) response ("Job not found: " ++ jobId)
  | asset (name : String) {response : Response} (hsuccess : response.isSuccess = true)
      (h : Reads (Rows.codec AssetRow.codec) response ⟨[]⟩) :
      Missing (.getAsset name) response ("Asset not found: " ++ name)

/-- How the exchange for a call ends: without a response if there is nothing that can be sent. -/
inductive Access.Ends {ν : Type} (a : Access) (n : Network ν) (call : Call) (s : ν) :
    Option Response → Prop where
  | unaddressed (h : a.requestFor? n.hosts call = none) : Ends a n call s none
  | unsendable {request : Request} (h : a.requestFor? n.hosts call = some request)
      (hcan : request.canSend = false) : Ends a n call s none
  | sent {request : Request} {final : Option Response}
      (h : a.requestFor? n.hosts call = some request)
      (hcan : request.canSend = true) (hends : n.Ends 10 request s final) : Ends a n call s final

namespace Missing

variable {call : Call} {response : Response} {what what' : String}

theorem unique (h : Missing call response what) (h' : Missing call response what') :
    what = what' := by
  cases h <;> cases h' <;> rfl

end Missing

section Classification

variable {call : Call} {response : Response} {what : String} {answer : Except Failure call.Answer}

end Classification

variable {ν : Type}

end Orchestrator
end RobotDesk
