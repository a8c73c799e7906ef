import RobotDesk.Wire.Url

/-!
Exchanges over a network: a request, and the response that ends it.

A network answers a request or fails to.  A response that points elsewhere is followed, up to ten
times, with the same headers.  After 303, and after 301 or 302 to a POST, the request that follows
is a GET without body and content type; after 307 and 308 it is repeated as it was.  A credential is
not sent on to another host.

The body of a response is a list of bytes.  Its text is in the character set that the response
names; there are many of them, and the text is given beside the bytes.
-/
namespace RobotDesk.Wire

inductive Method where
  | get
  | post
deriving DecidableEq, Repr

namespace Method

def name : Method → String
  | .get => "GET"
  | .post => "POST"

end Method

/-- The headers of a message, in their order. -/
abbrev Headers := List (String × String)

structure Request where
  method : Method
  url : Url
  headers : Headers
  body : Option String := none
deriving DecidableEq, Repr

structure Response where
  status : Nat
  headers : Headers := []
  body : List UInt8 := []
  /-- The body as text, in the character set of the response. -/
  text : String := ""
  /-- Whether the whole body arrived. -/
  complete : Bool := true
deriving DecidableEq, Repr

/-- A network with a state, and the hosts on it; `none` when there is no response. -/
structure Network (ν : Type) where
  hosts : Hosts
  send : Request → ν → Option Response × ν

namespace Headers

/-- The first value of a header; names are compared without regard to case. -/
def get? (name : String) (hs : Headers) : Option String :=
  (hs.find? (·.1.toLower = name.toLower)).map (·.2)

def erase (name : String) (hs : Headers) : Headers := hs.filter (·.1.toLower ≠ name.toLower)

/-- Whether a text can be sent as the value of a header. -/
def canSend (value : String) : Bool :=
  value.toList.all fun c => c = '\t' || (32 ≤ c.toNat && c.toNat ≠ 127)

end Headers

namespace Response

def isSuccess (r : Response) : Bool := 200 ≤ r.status && r.status < 300

/-- The body as text, if all of it arrived. -/
def text? (r : Response) : Option String := if r.complete then some r.text else none

end Response

namespace Request

/-- The request that follows a response which points to another address. -/
def redirected? (hosts : Hosts) (r : Request) (response : Response) : Option Request :=
  match (Headers.get? "location" response.headers).bind (r.url.resolve? hosts) with
  | none => none
  | some url =>
    let headers :=
      if url.authority = r.url.authority then r.headers else Headers.erase "authorization" r.headers
    let asGet : Request := ⟨.get, url, Headers.erase "content-type" headers, none⟩
    let again : Request := { r with url := url, headers := headers }
    match response.status with
    | 303 => some asGet
    | 301 | 302 => some (if r.method = .post then asGet else again)
    | 307 | 308 => some again
    | _ => none

/-- Whether all headers can be sent. -/
def canSend (r : Request) : Bool := r.headers.all (Headers.canSend ·.2)

end Request

namespace Network

variable {ν : Type}

/-- Sends a request, and follows at most a number of redirections. -/
def follow (n : Network ν) : Nat → Request → ν → Option Response × ν
  | hops, request, s =>
    match n.send request s with
    | (none, s) => (none, s)
    | (some response, s) =>
      match request.redirected? n.hosts response with
      | none => (some response, s)
      | some next =>
        match hops with
        | 0 => (none, s)
        | hops + 1 => follow n hops next s

/-- The response to a request in the end. -/
def exchange (n : Network ν) (request : Request) (s : ν) : Option Response × ν :=
  if request.canSend then n.follow 10 request s else (none, s)

/-- A network on which nobody can be reached. -/
def down : Network ν := ⟨.none, fun _ s => (none, s)⟩

end Network
end RobotDesk.Wire
