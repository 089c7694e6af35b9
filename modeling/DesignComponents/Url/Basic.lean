/-!
# Web addresses

The parts of an address that the program looks at: scheme, host, port, path and query. Userinfo
is checked but not kept, and so is a fragment, which is never sent.
-/

namespace DesignComponents

namespace Url

/-- The schemes with rules of their own: those of the web, which have a host, and files. -/
inductive SchemeKind where
  | web | file | other
  deriving DecidableEq, Repr

def webSchemes : List String := ["http", "https", "ws", "wss", "ftp"]

def schemeKind (scheme : String) : SchemeKind :=
  if webSchemes.contains scheme then .web else if scheme = "file" then .file else .other

def defaultPort? : String → Option Nat
  | "http" | "ws" => some 80
  | "https" | "wss" => some 443
  | "ftp" => some 21
  | _ => none

inductive Host where
  | none
  | name (text : String)
  | address4 (number : Nat)
  | address6 (pieces : List Nat)
  deriving DecidableEq, Repr

inductive Path where
  | plain (text : String)
  | segments (names : List String)
  deriving DecidableEq, Repr

end Url

structure Url where
  scheme : String
  host : Url.Host
  port : Option Nat
  path : Url.Path
  query : Option String
  deriving DecidableEq, Repr

inductive UrlError where
  | relativeWithoutBase | relativeToPlain | emptyHost | badPort | badAddress4 | badAddress6
  | badDomain | badCharacter
  deriving DecidableEq, Repr

def UrlError.message : UrlError → String
  | relativeWithoutBase => "relative URL without a base"
  | relativeToPlain => "relative URL with a cannot-be-a-base base"
  | emptyHost => "empty host"
  | badPort => "invalid port number"
  | badAddress4 => "invalid IPv4 address"
  | badAddress6 => "invalid IPv6 address"
  | badDomain => "invalid international domain name"
  | badCharacter => "invalid domain character"

namespace Url

def Path.text : Path → String
  | plain text => text
  | segments names => String.join (names.map ("/" ++ ·))

/-- The names between the slashes of a path; a plain path has none. -/
def pathNames (u : Url) : List String :=
  match u.path with
  | .plain _ => []
  | .segments names => names

def target (u : Url) : String :=
  u.path.text ++
    match u.query with
    | some query => "?" ++ query
    | none => ""

end Url

end DesignComponents
