import EventStream.Text.Blank

namespace EventStream

/-- A route at an endpoint. -/
structure Target where
  endpoint : String
  route : String
  deriving DecidableEq

/-- An address that starts with a slash. -/
structure TargetError where
  address : String

def TargetError.message (e : TargetError) : String :=
  "target '" ++ e.address ++ "' is missing an endpoint"

namespace Target

/-- The endpoint ends at the first slash; without a route after it the route is the endpoint. A
blank address means that nothing is sent. -/
def parse (address : String) : Except TargetError (Option Target) :=
  let s := trim address.toList
  let endpoint := trim (s.takeWhile (· ≠ '/'))
  let route := trim ((s.dropWhile (· ≠ '/')).drop 1)
  if s = [] then .ok none
  else if endpoint = [] then .error ⟨String.ofList s⟩
  else
    .ok (some ⟨String.ofList endpoint, String.ofList (if route = [] then endpoint else route)⟩)

def display (t : Target) : String :=
  t.endpoint ++ "/" ++ t.route

end Target

/-- Outputs are published to a stream and given to a component. -/
structure Targets where
  stream : Option Target
  component : Option Target

def Targets.isEmpty (t : Targets) : Bool :=
  t.stream.isNone && t.component.isNone

end EventStream
