/-!
Paths of a server. Patterns that begin alike share a branch of a tree up to where they part, and a
path is looked for along that tree: letters before names, and a branch that was taken is left again
only where it misses.
-/
namespace EventStream.Path

inductive Part where
  | letter (c : Char)
  /-- A name after a colon, for all up to the next slash, which may be nothing. -/
  | stretch
  /-- A name after a star, for all that follows, which is something. -/
  | rest
  deriving DecidableEq

mutual

def parts : List Char → List Part
  | [] => []
  | ':' :: r => .stretch :: partsAfterName r
  | '*' :: _ => [.rest]
  | c :: r => .letter c :: parts r

/-- A name goes up to a slash. -/
def partsAfterName : List Char → List Part
  | [] => []
  | '/' :: r => .letter '/' :: parts r
  | _ :: r => partsAfterName r

end

/-- What is left of the patterns that a path has followed so far, and what they lead to. -/
abbrev Branch (α : Type) := List (List Part × α)

namespace Branch

variable {α : Type}

/-- What the patterns that end here lead to. -/
def ends (b : Branch α) : List α :=
  (b.filter fun e => e.1.isEmpty).map Prod.snd

/-- The patterns that go on with a part, after it. -/
def past (b : Branch α) (p : Part) : Branch α :=
  b.filterMap fun e => if e.1.head? = some p then some (e.1.tail, e.2) else none

def after (b : Branch α) (c : Char) : Branch α :=
  b.past (.letter c)

/-- The letter with which all patterns go on; where there is none they part. -/
def only? (b : Branch α) : Option Char :=
  match b with
  | (.letter c :: _, _) :: r => if r.all fun e => e.1.head? = some (.letter c) then some c else none
  | _ => none

end Branch

inductive Outcome (α : Type) where
  | found (entries : List α)
  /-- Not along this branch, but perhaps under a name where it began. -/
  | missed
  /-- Not at all: the path has a slash at its end too many or too few. -/
  | closed

namespace Outcome

variable {α : Type}

def entries : Outcome α → List α
  | .found es => es
  | _ => []

/-- A miss, on a branch along which a slash alone was left. -/
def miss (sinceParting : List Char) : Outcome α :=
  if sinceParting = ['/'] then .closed else .missed

/-- What comes of a slash after a name, if other patterns may go on after it. -/
def afterName (next : Branch α) (r : List Char) (onward : Outcome α) : Outcome α :=
  if next.isEmpty then (if r = [] then .closed else .missed) else onward

end Outcome

section

variable {α : Type}

mutual

/-- Follows a path from where the patterns last parted. -/
def follow (sinceParting : List Char) (b : Branch α) : List Char → Outcome α
  | [] =>
    if !b.ends.isEmpty then .found b.ends
    else if b.only? = some '/' && !(b.after '/').ends.isEmpty then .closed
    else .miss sinceParting
  | c :: r =>
    match b.only? with
    | some d => if c = d then follow sinceParting (b.after c) r else .miss sinceParting
    | none =>
      match if (b.after c).isEmpty then Outcome.missed else follow (c :: r) (b.after c) r with
      | .missed =>
        let rests := (b.past .rest).ends
        let names := b.past .stretch
        if !rests.isEmpty then .found rests
        else if names.isEmpty then .miss (c :: r)
        else if c = '/' then .afterName (names.after '/') r (follow (c :: r) (names.after '/') r)
        else followName names r
      | decided => decided

/-- Follows a path within what a name stands for. -/
def followName (b : Branch α) : List Char → Outcome α
  | [] =>
    if !b.ends.isEmpty then .found b.ends
    else if !(b.after '/').ends.isEmpty then .closed
    else .missed
  | c :: r =>
    if c = '/' then .afterName (b.after '/') r (follow (c :: r) (b.after '/') r)
    else followName b r

end

/-- The entries whose pattern a path finds; all of them have one pattern. -/
def lookup (entries : List (List Char × α)) (path : List Char) : List α :=
  (follow path (entries.map fun e => (parts e.1, e.2)) path).entries

end

end EventStream.Path
