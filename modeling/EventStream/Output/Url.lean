import EventStream.HostName.Address
import EventStream.HostName.Basic
import EventStream.Text.Bytes

namespace EventStream.Url

/-- What follows a scheme, without the slashes before the host. -/
def afterScheme? (s : List Char) : Option (List Char) :=
  let scheme := (s.takeWhile (· ≠ ':')).map Char.toLower
  if scheme = "http".toList ∨ scheme = "https".toList then
    some ((s.drop (scheme.length + 1)).dropWhile fun c => c = '/' || c = '\\')
  else none

def endsAuthority (c : Char) : Bool :=
  c = '/' || c = '\\' || c = '?' || c = '#'

/-- Host and port come after the last at sign. -/
def hostAndPort (s : List Char) : List Char :=
  ((s.takeWhile fun c => !endsAuthority c).splitOn '@').getLast?.getD []

def isPort (s : List Char) : Bool :=
  s.all Char.isDigit && ofDigits s < 65536

/-- The name that is left when bytes after percent signs are read as UTF-8. -/
def hostName? (s : List Char) : Option (List Char) :=
  HostName.ofText? (Bytes.ofString (String.ofList s)).percentDecoded.lossyText.toList

/-- An address of eight groups in brackets, or a name. -/
def isHost (s : List Char) : Bool :=
  match s with
  | '[' :: r =>
    r.getLast? = some ']' && (ListenAddr.complete ListenAddr.hostV6 r.dropLast).isSome
  | _ => (hostName? s).any HostName.isAddressIfNumber

/-- The colon before a port is the last one, and not within brackets. -/
def splitPort (s : List Char) : List Char × List Char :=
  let port := (s.reverse.takeWhile fun c => c ≠ ':' && c ≠ ']').reverse
  match s.reverse.drop port.length with
  | ':' :: host => (host.reverse, port)
  | _ => (s, [])

/-- Blanks and control characters before a text do not count, nor do tabs and line ends in it. -/
def cleaned (s : List Char) : List Char :=
  (s.filter fun c => c ≠ '\t' && c ≠ '\n' && c ≠ '\r').dropWhile (·.toNat ≤ 0x20)

def isValid (s : String) : Bool :=
  match afterScheme? (cleaned s.toList) with
  | none => false
  | some r =>
    let (host, port) := splitPort (hostAndPort r)
    isHost host && isPort port

end EventStream.Url
