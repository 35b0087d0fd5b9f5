import EventStream.Event.Basic
import EventStream.Metrics.Exposition
import EventStream.Server.Http

namespace EventStream.Metrics

def page (m : Metrics) : Response :=
  ⟨200, some "text/plain; version=0.0.4; charset=utf-8", Bytes.ofString m.text⟩

def healthPage (m : Metrics) : Response :=
  ⟨200, some jsonType,
    (Json.object [("status", .string "ok"),
      ("input_queue_depth", .double (.ofNat m.queueDepth))]).write⟩

def handle (m : Metrics) (r : Request) : Response :=
  if r.place = "/metrics".toList then r.answerGet m.page
  else if r.place = "/health".toList then r.answerGet m.healthPage
  else .notFound

end EventStream.Metrics
