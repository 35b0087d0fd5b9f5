import EventStream.Output.Transport
import EventStream.Output.Url

namespace EventStream

/-- A call that carries a payload. -/
structure Call where
  url : String
  contentType : String
  body : Bytes

structure Reply where
  status : Nat
  body : Bytes

/-- Why a call has no reply. -/
inductive CallError where
  /-- No connection, or no reply in time. -/
  | connection (reason : String)
  | other (reason : String)

/-- What a network makes of calls. -/
structure Network where
  post : Call → Except CallError Reply
  /-- The status of a page, if there is a reply. -/
  get : String → Option Nat

/-- Dispatches are handed to a process nearby, by a call over the network. -/
structure Sidecar where
  /-- Where the process listens, without slashes at the end. -/
  base : String

namespace Sidecar

def ofUrl (url : String) : Sidecar :=
  ⟨String.ofList (url.toList.reverse.dropWhile (· = '/')).reverse⟩

def url (s : Sidecar) (kind : DispatchKind) (t : Target) : String :=
  match kind with
  | .publish => s.base ++ "/v1.0/publish/" ++ t.endpoint ++ "/" ++ t.route
  | .invoke => s.base ++ "/v1.0/invoke/" ++ t.endpoint ++ "/method/" ++ t.route

def healthUrl (s : Sidecar) : String :=
  s.base ++ "/v1.0/healthz/outbound"

def isSuccess (status : Nat) : Bool :=
  200 ≤ status && status < 300

/-- No more of a refusal is kept. -/
def longestRefusal : Nat := 512

def failure : DispatchKind → String → TransportError
  | .publish => .publish
  | .invoke => .invoke

/-- One call for one dispatch; a text that is no URL is never called. -/
def dispatch (s : Sidecar) (network : Network) (d : Dispatch) : Except TransportError Unit :=
  let url := s.url d.kind d.target
  if !Url.isValid url then .error (failure d.kind "builder error")
  else
    match network.post ⟨url, d.payload.contentType, d.payload.body⟩ with
    | .error (.connection r) => .error (.connection r)
    | .error (.other r) => .error (failure d.kind r)
    | .ok reply =>
      if isSuccess reply.status then .ok ()
      else
        .error (.rejected reply.status
          (String.ofList (reply.body.lossyText.toList.take longestRefusal)))

def isHealthy (s : Sidecar) (network : Network) : Bool :=
  Url.isValid s.healthUrl && (network.get s.healthUrl).any isSuccess

def transport (s : Sidecar) (network : Network) : Transport Unit :=
  ⟨"sidecar", fun _ d => (s.dispatch network d, ())⟩

end Sidecar

end EventStream
