import EventStream.Config.Error
import EventStream.Expr.Program
import EventStream.Text.Blank

namespace EventStream

structure Subscription where
  pubsub : String
  topic : String
  route : String
  deriving DecidableEq

namespace Subscription

/-- A pub/sub name, a topic and an optional route between bars; the route is the topic if none is
left without its slashes. -/
def parse (setting text : String) : Except ConfigError Subscription :=
  let of := fun pubsub topic route =>
    if pubsub = [] ∨ topic = [] then
      .error (.invalid setting ("'" ++ text ++ "' has an empty pubsub or topic"))
    else
      let route := route.dropWhile (· = '/')
      .ok ⟨String.ofList pubsub, String.ofList topic,
        String.ofList (if route = [] then topic else route)⟩
  match (text.toList.splitOn '|').map trim with
  | [pubsub, topic] => of pubsub topic []
  | [pubsub, topic, route] => of pubsub topic route
  | _ => .error (.invalid setting ("'" ++ text ++ "' (expected pubsub|topic|route)"))

def path (s : Subscription) : String :=
  "/" ++ s.route

/-- The variable that holds an event of the topic. -/
def binding (s : Subscription) : String :=
  sanitizeIdentifier s.topic

end Subscription

/-- Routes that the server keeps for itself. -/
def reservedRoutes : List String :=
  ["health", "dapr/subscribe"]

/-- No route is reserved and no route comes twice; `seen` came before. -/
def checkRoutes (setting : String) (seen : List String) : List String → Except ConfigError Unit
  | [] => .ok ()
  | r :: rs =>
    if reservedRoutes.contains r then .error (.invalid setting ("route '" ++ r ++ "' is reserved"))
    else if seen.contains r then .error (.invalid setting ("route '" ++ r ++ "' is used twice"))
    else checkRoutes setting (r :: seen) rs

end EventStream
