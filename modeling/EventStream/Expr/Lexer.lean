import EventStream.Expr.Token
import EventStream.Text.Size

namespace EventStream

namespace Lexer

def isGap (c : Char) : Bool :=
  c == ' ' || c == '\t' || c == '\r' || c == '\n' || c == '\x0c'

def isNameStart (c : Char) : Bool :=
  c.isAlpha || c == '_'

def isNamePart (c : Char) : Bool :=
  c.isAlphanum || c == '_'

/-- A point and digits, if both are there. -/
def fraction (s : List Char) : List Char :=
  match s with
  | '.' :: r => if r.takeWhile Char.isDigit = [] then [] else '.' :: r.takeWhile Char.isDigit
  | _ => []

/-- An exponent mark, a sign or none, and digits, if they are there. -/
def exponent (s : List Char) : List Char :=
  match s with
  | [] => []
  | c :: r =>
    let sign := match r with
      | '+' :: _ => ['+']
      | '-' :: _ => ['-']
      | _ => []
    let digits := (r.drop sign.length).takeWhile Char.isDigit
    if (c = 'e' ∨ c = 'E') ∧ digits ≠ [] then c :: sign ++ digits else []

/-- The units of a string body: a character, or a backslash and a character, but no line feed. The
second part tells whether the closing quote follows. -/
def stringBody (quote : Char) : List Char → List Char × Bool
  | '\\' :: c :: r =>
    if c = '\n' then ([], false)
    else
      let (body, closed) := stringBody quote r
      ('\\' :: c :: body, closed)
  | c :: r =>
    if c = quote then ([], true)
    else if c = '\\' ∨ c = '\n' then ([], false)
    else
      let (body, closed) := stringBody quote r
      (c :: body, closed)
  | [] => ([], false)

/-- A token and the text that it covers after its first character. -/
abbrev Match := Token × List Char

def name (c : Char) (r : List Char) : Match :=
  let tail := r.takeWhile isNamePart
  let text := String.ofList (c :: tail)
  match Keyword.ofName? text with
  | some k => (.keyword k, tail)
  | none => (.identifier text, tail)

def number (c : Char) (r : List Char) : Match :=
  let whole := r.takeWhile Char.isDigit
  let point := fraction (r.drop whole.length)
  let power := exponent (r.drop (whole.length + point.length))
  let tail := whole ++ point ++ power
  if point = [] ∧ power = [] then
    match word? (ofDigits (c :: whole)) with
    | some n => (.integer n, tail)
    | none => (.invalid (c :: tail), tail)
  else
    match Double.read? (c :: tail) with
    | some d => (.double d, tail)
    | none => (.invalid (c :: tail), tail)

def string (quote : Char) (r : List Char) : Match :=
  match stringBody quote r with
  | (body, true) => (.string body, body ++ [quote])
  | (body, false) => (.invalid (quote :: body), body)

def symbol (c : Char) (r : List Char) : Match :=
  match Symbol.all.find? fun s => s.chars.isPrefixOf (c :: r) with
  | some s => (.symbol s, s.chars.drop 1)
  | none => (.invalid [c], [])

/-- The longest token at the front of `c :: r`. -/
def longest (c : Char) (r : List Char) : Match :=
  if isNameStart c then name c r
  else if c.isDigit then number c r
  else if c = '"' ∨ c = '\'' then string c r
  else symbol c r

/-- The tokens of a text that starts at a byte of the source, and the end. -/
def lexemes (start : Nat) (s : List Char) : List Lexeme :=
  match s with
  | [] => [⟨.ending, start, start⟩]
  | c :: r =>
    if isGap c then lexemes (start + c.utf8Size) r
    else
      let (token, tail) := longest c r
      let stop := start + byteSize (c :: tail)
      ⟨token, start, stop⟩ :: lexemes stop (r.drop tail.length)
termination_by s.length
decreasing_by all_goals simp only [List.length_drop, List.length_cons]; omega

end Lexer

/-- The tokens of an expression, the end last. -/
def tokens (source : String) : List Lexeme :=
  Lexer.lexemes 0 source.toList

end EventStream
