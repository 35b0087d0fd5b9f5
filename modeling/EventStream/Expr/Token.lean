import EventStream.Double.Layout
import EventStream.Json.Writer

namespace EventStream

inductive Symbol where
  | or
  | and
  | equal
  | notEqual
  | lessEqual
  | greaterEqual
  | less
  | greater
  | not
  | plus
  | minus
  | times
  | divide
  | modulus
  | question
  | colon
  | dot
  | comma
  | leftParen
  | rightParen
  | leftBracket
  | rightBracket
  | leftBrace
  | rightBrace
  deriving DecidableEq

namespace Symbol

def chars : Symbol → List Char
  | .or => ['|', '|']
  | .and => ['&', '&']
  | .equal => ['=', '=']
  | .notEqual => ['!', '=']
  | .lessEqual => ['<', '=']
  | .greaterEqual => ['>', '=']
  | .less => ['<']
  | .greater => ['>']
  | .not => ['!']
  | .plus => ['+']
  | .minus => ['-']
  | .times => ['*']
  | .divide => ['/']
  | .modulus => ['%']
  | .question => ['?']
  | .colon => [':']
  | .dot => ['.']
  | .comma => [',']
  | .leftParen => ['(']
  | .rightParen => [')']
  | .leftBracket => ['[']
  | .rightBracket => [']']
  | .leftBrace => ['\x7b']
  | .rightBrace => ['\x7d']

/-- The symbols, longer ones first. -/
def all : List Symbol :=
  [.or, .and, .equal, .notEqual, .lessEqual, .greaterEqual, .less, .greater, .not, .plus, .minus,
    .times, .divide, .modulus, .question, .colon, .dot, .comma, .leftParen, .rightParen,
    .leftBracket, .rightBracket, .leftBrace, .rightBrace]

end Symbol

inductive Keyword where
  | trueWord
  | falseWord
  | nullWord
  | inWord
  deriving DecidableEq

namespace Keyword

def name : Keyword → String
  | .trueWord => "true"
  | .falseWord => "false"
  | .nullWord => "null"
  | .inWord => "in"

def ofName? (s : String) : Option Keyword :=
  [trueWord, falseWord, nullWord, inWord].find? (·.name == s)

end Keyword

inductive Token where
  | symbol (s : Symbol)
  | keyword (k : Keyword)
  | integer (n : Int64)
  | double (d : Double)
  /-- A string as it stands between its quotes. -/
  | string (raw : List Char)
  | identifier (name : String)
  /-- Text that is no token, or an integer of more than 64 bits. -/
  | invalid (text : List Char)
  | ending
  deriving DecidableEq

def Token.display : Token → String
  | .symbol s => String.ofList s.chars
  | .keyword k => k.name
  | .integer n => String.ofList (Json.integerText n.toInt)
  | .double d => d.text
  | .string raw => "\"" ++ String.ofList raw ++ "\""
  | .identifier name => name
  | .invalid text => "'" ++ String.ofList text ++ "'"
  | .ending => "end of expression"

/-- A token and the bytes of the source that it covers. -/
structure Lexeme where
  token : Token
  start : Nat
  stop : Nat
  deriving DecidableEq

end EventStream
