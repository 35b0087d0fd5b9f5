import EventStream.Config.Runtime
import EventStream.Output.Lines
import EventStream.Output.Sidecar
import EventStream.Pipeline.Settle
import EventStream.Server.Ingest

namespace EventStream

def IngestServer.ofChannel (c : ChannelConfig) : IngestServer :=
  ⟨some (c.serviceRoute, c.binding), c.source.toList⟩

def IngestServer.ofJoiner (c : JoinerConfig) : IngestServer :=
  ⟨none, [c.left, c.right]⟩

/-- A pipeline in time, with the server that feeds it. -/
structure Service (π σ : Type) where
  server : IngestServer
  router : Router σ
  timeline : Timeline π σ

namespace Service

variable {π σ : Type}

def ofChannel (c : ChannelConfig) (transport : Transport σ) (s : σ) (inputs outputs : Nat) :
    Except ProcessorError (Service Channel σ) := do
  let channel ← Channel.ofConfig c
  .ok ⟨.ofChannel c, ⟨transport, c.targets⟩, ⟨.start channel inputs outputs s, 0, none⟩⟩

/-- A joiner whose windows have no schedule stops as soon as it starts. -/
def ofJoiner (c : JoinerConfig) (transport : Transport σ) (s : σ) (inputs outputs : Nat) :
    Except ProcessorError (Service Joiner σ) := do
  let joiner ← Joiner.ofConfig c
  let pipeline : Pipeline Joiner σ := .start joiner inputs outputs s
  .ok ⟨.ofJoiner c, ⟨transport, c.targets⟩,
    match Schedule.start? c.window 0 with
    | some schedule => ⟨pipeline, 0, some schedule⟩
    | none => ⟨pipeline.stop, 0, none⟩⟩

def pipeline (s : Service π σ) : Pipeline π σ :=
  s.timeline.pipeline

def update (s : Service π σ) (f : Pipeline π σ → Pipeline π σ) : Service π σ :=
  { s with timeline := { s.timeline with pipeline := f s.pipeline } }

/-- A request is answered at once; the pipeline has not moved on yet. -/
def handle (s : Service π σ) (r : Request) : Response × Service π σ :=
  let handled := s.server.handle s.pipeline.input r
  (handled.response, s.update fun p =>
    { p with input := handled.queue, metrics := p.metrics.recordAll handled.measured })

/-- Everything happens that can happen up to some time from now; payloads that are held stay in the
output queue. -/
def advance [Stage π] (s : Service π σ) (isHeld : Bool) (duration : Nat) : Service π σ :=
  let router := if isHeld then none else some s.router
  { s with timeline := s.timeline.advance router (s.timeline.now + duration) }

/-- Requests one after another, each done with before the next. -/
def serve [Stage π] (s : Service π σ) : List Request → List Response × Service π σ
  | [] => ([], s)
  | r :: rest =>
    let (response, s) := s.handle r
    let (responses, s) := (s.advance false 0).serve rest
    (response :: responses, s)

/-- The processor is told to stop, and what is queued goes out. -/
def shutdown [Stage π] (s : Service π σ) : Service π σ :=
  (s.update Pipeline.stop).advance false 0

end Service

/-- Why a run ends before it has begun. -/
inductive RunError where
  | processor (e : ProcessorError)
  | bind (addr : ListenAddr)

def RunError.message : RunError → String
  | .processor e => e.message
  | .bind addr => "failed to bind ingest server on " ++ addr.display

/-- How many payloads may wait for the router. -/
def outputCapacity : Nat := 1024

/-- The transport that is configured; only the one that writes lines leaves something behind. -/
def RuntimeConfig.outlet (r : RuntimeConfig) (network : Network) : Transport Lines :=
  match r.transport with
  | .stdout => Lines.transport
  | .sidecar =>
    ⟨"sidecar", fun s d => ((Sidecar.ofUrl r.sidecarUrl).dispatch network d, s)⟩

/-- What a process finds around it. -/
structure Surroundings where
  network : Network
  /-- Whether the address to listen on is free. -/
  isFree : Bool
  /-- The requests that arrive. -/
  arrivals : List Request

/-- What was answered and what was written. -/
structure Run where
  responses : List Response
  lines : Lines

namespace Run

variable {π : Type}

/-- A run ends when the requests that arrive have been answered. -/
def ofService [Stage π] (w : Surroundings) (addr : ListenAddr)
    (service : Except ProcessorError (Service π Lines)) : Except RunError Run :=
  match service with
  | .error e => .error (.processor e)
  | .ok s =>
    if w.isFree then
      let (responses, s) := s.serve w.arrivals
      .ok ⟨responses, s.shutdown.pipeline.transport⟩
    else .error (.bind addr)

def ofChannel (w : Surroundings) (r : RuntimeConfig) (c : ChannelConfig) : Except RunError Run :=
  ofService w c.listenAddr
    (Service.ofChannel c (r.outlet w.network) .empty r.queueCapacity outputCapacity)

def ofJoiner (w : Surroundings) (r : RuntimeConfig) (c : JoinerConfig) : Except RunError Run :=
  ofService w c.listenAddr
    (Service.ofJoiner c (r.outlet w.network) .empty r.queueCapacity outputCapacity)

end Run

end EventStream
