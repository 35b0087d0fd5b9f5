import EventStream.Config.Settings
import EventStream.Config.Subscription

namespace EventStream

inductive ChannelMode where
  /-- Every payload goes out by itself. -/
  | stream
  /-- Payloads wait for a trigger and go out together. -/
  | aggregate

structure ChannelConfig where
  listenAddr : ListenAddr
  /-- The route of direct invocations. -/
  serviceRoute : String
  source : Option Subscription
  /-- The variable that holds the event. -/
  binding : String
  mode : ChannelMode
  trigger : Option String
  filter : Option String
  select : Option String
  targets : Targets

namespace ChannelConfig

def serviceRouteOf (s : Settings) : Except ConfigError String :=
  let route := ((s.get? "CHANNEL_SERVICE_ROUTE").or (s.get? "APP_ID")).map fun r =>
    r.toList.dropWhile (· = '/')
  match route with
  | some (c :: r) => .ok (String.ofList (c :: r))
  | _ => .error (.missing "CHANNEL_SERVICE_ROUTE (or APP_ID)")

def sourceOf (s : Settings) : Except ConfigError (Option Subscription) :=
  (s.get? "CHANNEL_STREAM_INFO").mapM (Subscription.parse "CHANNEL_STREAM_INFO")

/-- A name of its own, else the one of the topic. -/
def bindingOf (s : Settings) (source : Option Subscription) : String :=
  (((s.get? "CHANNEL_STREAM_NAME").map sanitizeIdentifier).or
    (source.map Subscription.binding)).getD "event"

def ofSettings (s : Settings) : Except ConfigError ChannelConfig := do
  let listenAddr ← s.listenAddr "CHANNEL_SERVICE_PORT"
  let serviceRoute ← serviceRouteOf s
  let source ← sourceOf s
  let mode ← s.choice "CHANNEL_MODE" [("stream", .stream), ("aggregate", .aggregate)] .stream
    "(expected stream or aggregate)"
  let _ ← checkRoutes "CHANNEL_STREAM_INFO" []
    (serviceRoute :: (source.map Subscription.route).toList)
  let targets ← s.targets "CHANNEL_TARGET" "CHANNEL_STREAM_TARGET"
  .ok { listenAddr, serviceRoute, source, mode, targets
        binding := bindingOf s source
        trigger := s.get? "CHANNEL_AGGREGATE_TRIGGER"
        filter := s.get? "CHANNEL_SELECT_FILTER_EXPRESSION"
        select := s.get? "CHANNEL_SELECT_DATA_EXPRESSION" }

end ChannelConfig

end EventStream
