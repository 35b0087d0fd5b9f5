import EventStream.Config.Error
import EventStream.Config.Fraction
import EventStream.Config.ListenAddr
import EventStream.Target

namespace EventStream

abbrev Settings := String → Option String

namespace Settings

/-- A setting without the blanks around it. -/
def get? (s : Settings) (key : String) : Option String :=
  ((s key).map trimmed).filter fun v => !v.isEmpty

/-- Letters without regard to case, in ASCII. -/
def folded (v : String) : String :=
  String.ofList (v.toList.map Char.toLower)

/-- One of some words, without regard to case. -/
def choice {α : Type} (s : Settings) (key : String) (words : List (String × α)) (default : α)
    (expected : String) : Except ConfigError α :=
  match s.get? key with
  | none => .ok default
  | some v =>
    match words.lookup (folded v) with
    | some x => .ok x
    | none => .error (.invalid key ("'" ++ v ++ "' " ++ expected))

def listenAddr (s : Settings) (key : String) : Except ConfigError ListenAddr :=
  ListenAddr.parse key ((s.get? key).getD ":8080")

def positiveDuration (key text : String) : Except ConfigError Duration :=
  match Duration.parse text with
  | .error e => .error (.invalid key (e.message text))
  | .ok d =>
    if d.nanos = 0 then .error (.invalid key "duration must be positive") else .ok d

def target (s : Settings) (key : String) : Except ConfigError (Option Target) :=
  match s.get? key with
  | none => .ok none
  | some address =>
    match Target.parse address with
    | .ok t => .ok t
    | .error e => .error (.invalid key e.message)

/-- At least one target is set. -/
def targets (s : Settings) (componentKey streamKey : String) : Except ConfigError Targets := do
  let component ← s.target componentKey
  let stream ← s.target streamKey
  let t : Targets := ⟨stream, component⟩
  if t.isEmpty then .error (.missing (componentKey ++ " or " ++ streamKey)) else .ok t

end Settings

end EventStream
