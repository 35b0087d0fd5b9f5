import EventStream.Config.Settings
import EventStream.Config.Subscription

namespace EventStream

structure JoinerConfig where
  listenAddr : ListenAddr
  left : Subscription
  right : Subscription
  window : Duration
  /-- Without a filter, whether no pair or every pair is taken. -/
  requireFilter : Bool
  filter : Option String
  select : Option String
  targets : Targets

namespace JoinerConfig

def streamsKey : String := "JOINER_STREAMS_INFO"

/-- All streams in one setting, or each in its own. -/
def streamsOf (s : Settings) : Except ConfigError (List Subscription) :=
  match s.get? streamsKey with
  | some all =>
    (((all.toList.splitOn ';').map trim).filter (· ≠ [])).mapM fun t =>
      Subscription.parse streamsKey (String.ofList t)
  | none =>
    match s.get? "JOINER_STREAM0_INFO", s.get? "JOINER_STREAM1_INFO" with
    | none, _ => .error (.missing "JOINER_STREAM0_INFO")
    | _, none => .error (.missing "JOINER_STREAM1_INFO")
    | some first, some second => do
      let left ← Subscription.parse "JOINER_STREAM0_INFO" first
      let right ← Subscription.parse "JOINER_STREAM1_INFO" second
      .ok [left, right]

/-- Two streams of different topics, variables and routes. -/
def pairOf (streams : List Subscription) : Except ConfigError (Subscription × Subscription) :=
  match streams with
  | [left, right] =>
    if left.topic = right.topic then
      .error (.invalid streamsKey ("both streams use topic '" ++ left.topic ++ "'"))
    else if left.binding = right.binding then
      .error (.invalid streamsKey
        ("topics '" ++ left.topic ++ "' and '" ++ right.topic ++ "' bind to the same name"))
    else do
      let _ ← checkRoutes streamsKey [] [left.route, right.route]
      .ok (left, right)
  | _ =>
    .error (.invalid streamsKey
      ("exactly two streams required, found " ++ streams.length.repr))

def requireFilterWords : List (String × Bool) :=
  [("true", true), ("1", true), ("yes", true), ("on", true),
    ("false", false), ("0", false), ("no", false), ("off", false)]

def ofSettings (s : Settings) : Except ConfigError JoinerConfig := do
  let listenAddr ← s.listenAddr "JOINER_SERVICE_PORT"
  let streams ← streamsOf s
  let (left, right) ← pairOf streams
  let window ← Settings.positiveDuration "JOINER_WINDOW_SIZE"
    ((s.get? "JOINER_WINDOW_SIZE").getD "10ms")
  let requireFilter ← s.choice "JOINER_REQUIRE_FILTER" requireFilterWords true "is not a boolean"
  let targets ← s.targets "JOINER_TARGET" "JOINER_STREAM_TARGET"
  .ok { listenAddr, left, right, window, requireFilter, targets
        filter := s.get? "JOINER_FILTER_EXPRESSION"
        select := s.get? "JOINER_DATA_EXPRESSION" }

def topics (c : JoinerConfig) : List String :=
  [c.left.topic, c.right.topic]

end JoinerConfig

end EventStream
