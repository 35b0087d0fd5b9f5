import EventStream.Text.Bytes

namespace EventStream

structure Request where
  method : String
  path : String
  contentType : Option String
  body : Bytes

structure Response where
  status : Nat
  contentType : Option String
  body : Bytes

namespace Response

def empty (status : Nat) : Response :=
  ⟨status, none, []⟩

def plain (status : Nat) (text : String) : Response :=
  ⟨status, some "text/plain; charset=utf-8", Bytes.ofString text⟩

def notFound : Response :=
  empty 404

def methodNotAllowed : Response :=
  empty 405

/-- Who asks for the head alone gets no body. -/
def withoutBody (r : Response) : Response :=
  { r with body := [] }

end Response

namespace Request

def isVisible (c : Char) : Bool :=
  c = '\t' || (0x20 ≤ c.toNat && c.toNat < 0x7F)

/-- A header with a character beyond ASCII counts as none. -/
def readableType (r : Request) : Option String :=
  r.contentType.filter fun t => t.toList.all isVisible

def withoutQuery (s : List Char) : List Char :=
  s.takeWhile fun c => c ≠ '?' && c ≠ '#'

/-- The path without query, of a full address what follows the host. -/
def place (r : Request) : List Char :=
  let target := r.path.toList
  let scheme := target.takeWhile fun c => c.isAlphanum || c = '+' || c = '-' || c = '.'
  match scheme, target.drop scheme.length with
  | _ :: _, ':' :: '/' :: '/' :: r =>
    match (withoutQuery r).dropWhile (· ≠ '/') with
    | [] => ['/']
    | path => path
  | _, _ => withoutQuery target

/-- The largest body that is read. -/
def longestBody : Nat := 2 * 1024 * 1024

def tooLarge (r : Request) : Bool :=
  longestBody < r.body.length

/-- The answer at a place that is only read. -/
def answerGet (r : Request) (page : Response) : Response :=
  if r.method = "GET" then page
  else if r.method = "HEAD" then page.withoutBody
  else .methodNotAllowed

end Request

end EventStream
