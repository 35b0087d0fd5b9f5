import EventStream.Config.Settings

namespace EventStream

inductive LogFormat where
  | pretty
  | json

/-- How outputs leave. -/
inductive TransportKind where
  | sidecar
  | stdout

structure RuntimeConfig where
  /-- Where metrics are served, if they are. -/
  metricsAddr : Option ListenAddr
  queueCapacity : Nat
  logLevel : String
  logFormat : LogFormat
  transport : TransportKind
  sidecarUrl : String
  dispatchTimeout : Duration

namespace RuntimeConfig

def metricsAddrOf (s : Settings) : Except ConfigError (Option ListenAddr) :=
  match s.get? "RIVULET_METRICS_ADDR" with
  | none => .ok (some ⟨.v4 [0, 0, 0, 0], 9090⟩)
  | some v =>
    if Settings.folded v = "off" then .ok none
    else (ListenAddr.parse "RIVULET_METRICS_ADDR" v).map some

def queueCapacityOf (s : Settings) : Except ConfigError Nat :=
  match s.get? "RIVULET_QUEUE_CAPACITY" with
  | none => .ok 1024
  | some v =>
    match (unsigned? 18446744073709551616 v.toList).filter (0 < ·) with
    | some n => .ok n
    | none =>
      .error (.invalid "RIVULET_QUEUE_CAPACITY" ("'" ++ v ++ "' is not a positive integer"))

def sidecarUrlOf (s : Settings) : Except ConfigError String :=
  match s.get? "DAPR_HTTP_PORT" with
  | none => .ok "http://127.0.0.1:3500"
  | some v =>
    match unsigned? 65536 v.toList with
    | some n => .ok ("http://127.0.0.1:" ++ n.repr)
    | none => .error (.invalid "DAPR_HTTP_PORT" ("'" ++ v ++ "' is not a port"))

def dispatchTimeoutOf (s : Settings) : Except ConfigError Duration :=
  match s.get? "RIVULET_DISPATCH_TIMEOUT" with
  | none => .ok (.ofSeconds 5)
  | some v => Settings.positiveDuration "RIVULET_DISPATCH_TIMEOUT" v

def ofSettings (s : Settings) : Except ConfigError RuntimeConfig := do
  let metricsAddr ← metricsAddrOf s
  let queueCapacity ← queueCapacityOf s
  let logFormat ← s.choice "RIVULET_LOG_FORMAT" [("json", .json), ("pretty", .pretty)] .pretty
    "(expected json or pretty)"
  let transport ← s.choice "RIVULET_TRANSPORT" [("sidecar", .sidecar), ("stdout", .stdout)]
    .sidecar "(expected sidecar or stdout)"
  let sidecarUrl ← sidecarUrlOf s
  let dispatchTimeout ← dispatchTimeoutOf s
  .ok { metricsAddr, queueCapacity, logFormat, transport, sidecarUrl, dispatchTimeout
        logLevel := (s.get? "RIVULET_LOG_LEVEL").getD "info" }

end RuntimeConfig

end EventStream
