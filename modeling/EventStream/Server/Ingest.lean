import EventStream.Config.Subscription
import EventStream.Event.Decode
import EventStream.Json.Writer
import EventStream.Metrics.Basic
import EventStream.Server.Http
import EventStream.Server.Path

namespace EventStream

structure IngestServer where
  /-- A route for direct invocations, and the topic of their events. -/
  invocation : Option (String × String)
  streams : List Subscription

/-- What is found at a path. -/
inductive Endpoint where
  | health
  | subscriptions
  | invocation (topic : String)
  | delivery (topic : String)

/-- Pages are read, and events are posted. -/
def Endpoint.takes : Endpoint → String → Bool
  | .health, method | .subscriptions, method => method = "GET" || method = "HEAD"
  | .invocation _, method | .delivery _, method => method = "POST"

/-- An answer, the queue after it, and what is counted. -/
structure Handled where
  response : Response
  queue : Queue Event
  measured : List Measurement

namespace IngestServer

def endpoints (s : IngestServer) : List (List Char × Endpoint) :=
  [("/health".toList, .health), ("/dapr/subscribe".toList, .subscriptions)] ++
    (s.invocation.map fun (route, topic) =>
      ('/' :: route.toList, Endpoint.invocation topic)).toList ++
    s.streams.map fun sub => (sub.path.toList, .delivery sub.topic)

/-- All that is at the place of a request, whatever its method. -/
def found (s : IngestServer) (r : Request) : List Endpoint :=
  Path.lookup s.endpoints r.place

/-- The event of a delivery goes to the end of the queue. -/
def offer (queue : Queue Event) (topic contentType : String) (body : Bytes) :
    Except IngestError (Queue Event) := do
  let event ← Event.decode topic contentType body
  (queue.push event).mapError .queue

def measured (topic : String) : Except IngestError (Queue Event) → List Measurement
  | .ok queue => [.received topic, .queueDepth queue.size]
  | .error e => [.dropped e.reason 1]

def statusOf : IngestError → Nat
  | .unsupportedType _ => 415
  | .queue _ => 503
  | _ => 400

/-- An invocation gets its own body back. -/
def invoke (topic : String) (queue : Queue Event) (r : Request) : Handled :=
  let contentType := r.readableType.getD ""
  let offered := offer queue topic contentType r.body
  match offered with
  | .ok after => ⟨⟨200, some contentType, r.body⟩, after, measured topic offered⟩
  | .error e => ⟨.plain (statusOf e) e.message, queue, measured topic offered⟩

def verdict : Except IngestError (Queue Event) → String
  | .ok _ => "SUCCESS"
  | .error e => if e.isRetryable then "RETRY" else "DROP"

def jsonPage (j : Json) : Response :=
  ⟨200, some jsonType, j.write⟩

/-- A delivery without content type is an envelope, and its answer says whether to send it again. -/
def deliver (topic : String) (queue : Queue Event) (r : Request) : Handled :=
  let offered := offer queue topic (r.readableType.getD cloudEventsType) r.body
  let response := jsonPage (.object [("status", .string (verdict offered))])
  match offered with
  | .ok after => ⟨response, after, measured topic offered⟩
  | .error _ => ⟨response, queue, measured topic offered⟩

def subscriptionPage (s : IngestServer) : Response :=
  jsonPage (.array (s.streams.map fun sub =>
    .object [("pubsubname", .string sub.pubsub), ("topic", .string sub.topic),
      ("route", .string sub.path)]))

/-- A body is taken only if it is not too large. -/
def post (queue : Queue Event) (r : Request) (take : Queue Event → Request → Handled) : Handled :=
  if r.tooLarge then
    ⟨.plain 413 "Failed to buffer the request body: length limit exceeded", queue, []⟩
  else take queue r

def answer (s : IngestServer) (queue : Queue Event) (r : Request) : Endpoint → Handled
  | .health => ⟨r.answerGet (.empty 200), queue, []⟩
  | .subscriptions => ⟨r.answerGet s.subscriptionPage, queue, []⟩
  | .invocation topic => post queue r (invoke topic)
  | .delivery topic => post queue r (deliver topic)

/-- At a place where something is, but nothing for its method, a request is not allowed. -/
def handle (s : IngestServer) (queue : Queue Event) (r : Request) : Handled :=
  match s.found r with
  | [] => ⟨.notFound, queue, []⟩
  | es =>
    match es.find? (·.takes r.method) with
    | none => ⟨.methodNotAllowed, queue, []⟩
    | some e => s.answer queue r e

end IngestServer

end EventStream
