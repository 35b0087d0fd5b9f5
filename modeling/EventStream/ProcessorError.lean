import EventStream.Config.Error
import EventStream.Event.IngestError
import EventStream.Expr.Error
import EventStream.Output.Transport
import EventStream.Window.Outcome

namespace EventStream

/-- What an expression is for. -/
inductive Role where
  | filter
  | select
  | trigger

def Role.name : Role → String
  | .filter => "filter"
  | .select => "select"
  | .trigger => "trigger"

inductive ProcessorError where
  | config (e : ConfigError)
  | compile (role : Role) (e : CompileError)
  | eval (e : EvalError)
  | typeMismatch (e : TypeMismatch)
  | event (e : EventError)
  | emptyWindow (e : EmptyWindow)
  | ingest (e : IngestError)
  | transport (e : TransportError)
  | io (reason : String)
  | metrics (reason : String)
  | shutdown

namespace ProcessorError

def message : ProcessorError → String
  | .config e => "configuration error: " ++ e.message
  | .compile r e => r.name ++ " expression: " ++ e.message
  | .eval e => "evaluation error: " ++ e.message
  | .typeMismatch e => e.message
  | .event e => "event error: " ++ e.message
  | .emptyWindow e => "empty window: " ++ e.message
  | .ingest e => "ingest error: " ++ e.message
  | .transport e => "transport error: " ++ e.message
  | .io r => "IO error: " ++ r
  | .metrics r => "metrics error: " ++ r
  | .shutdown => "shutdown requested"

def reason : ProcessorError → String
  | .config _ => "config"
  | .compile _ _ => "compile"
  | .eval _ => "eval_error"
  | .typeMismatch _ => "type_mismatch"
  | .event _ => "invalid_payload"
  | .emptyWindow _ => "empty_window"
  | .ingest _ => "ingest"
  | .transport _ => "transport"
  | .io _ => "io"
  | .metrics _ => "metrics"
  | .shutdown => "shutdown"

def ofTarget (e : TargetError) : ProcessorError :=
  .config (.invalid "target" e.message)

end ProcessorError

end EventStream
