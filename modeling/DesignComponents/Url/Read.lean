import DesignComponents.Url.Address
import DesignComponents.Url.Basic
import DesignComponents.Url.Domain.Name

/-!
# Reading addresses

An address is read from left to right: scheme, userinfo, host, port, path, query. An address of
the web may have any number of slashes of either kind before its host, and its host is a name or
a number; other schemes take two slashes or none and keep the host as it is written. An address
without a scheme is read relative to another.
-/

namespace DesignComponents.Url

/-! ## Characters -/

def isTabOrBreak (c : Char) : Bool := c == '\t' || c == '\n' || c == '\r'

/-- The text without controls and blanks at its ends and without line breaks and tabs. -/
def cleaned (cs : List Char) : List Char :=
  (trimEnds (fun c => c.toNat ≤ 0x20) cs).filter (!isTabOrBreak ·)

def isSlash (kind : SchemeKind) (c : Char) : Bool := c == '/' || (kind != .other && c == '\\')

def endsAuthority (kind : SchemeKind) (c : Char) : Bool := isSlash kind c || c == '?' || c == '#'

/-! ## Scheme -/

def isSchemeChar (c : Char) : Bool := c.isAlphanum || c == '+' || c == '-' || c == '.'

def scheme? (cs : List Char) : Option (String × List Char) :=
  if cs.head?.any Char.isAlpha then
    match cs.dropWhile isSchemeChar with
    | ':' :: rest => some (String.ofList ((cs.takeWhile isSchemeChar).map Char.toLower), rest)
    | _ => none
  else none

/-! ## Authority -/

def atLastSign? (cs : List Char) : Option (List Char × List Char) :=
  if cs.contains '@' then
    some ((cs.reverse.dropWhile (· ≠ '@')).reverse.dropLast,
      (cs.reverse.takeWhile (· ≠ '@')).reverse)
  else none

/-- Whether userinfo was given, and the text behind it. Userinfo alone makes no authority. -/
def skipUserinfo (kind : SchemeKind) (cs : List Char) : Except UrlError (Bool × List Char) :=
  let authority := cs.takeWhile (!endsAuthority kind ·)
  let rest := cs.dropWhile (!endsAuthority kind ·)
  match atLastSign? authority with
  | none => .ok (false, cs)
  | some ([], []) => if rest.isEmpty then .ok (false, rest) else .error .emptyHost
  | some (user, host) => .ok (!user.isEmpty && user != [':'], host ++ rest)

/-- The host's text, which ends before a colon outside of brackets, and what follows. -/
def hostText (kind : SchemeKind) : (inBrackets : Bool) → List Char → List Char × List Char
  | _, [] => ([], [])
  | inBrackets, c :: cs =>
    if endsAuthority kind c || (c == ':' && !inBrackets) then ([], c :: cs)
    else
      let inBrackets := if c = '[' then true else if c = ']' then false else inBrackets
      let (text, rest) := hostText kind inBrackets cs
      (c :: text, rest)

def bracketed? (cs : List Char) : Except UrlError Host :=
  if cs.getLast? == some ']' then
    match address6? (cs.drop 1).dropLast with
    | some pieces => .ok (.address6 pieces)
    | none => .error .badAddress6
  else .error .badAddress6

def webHost (cs : List Char) : Except UrlError Host :=
  if cs.head? == some '[' then bracketed? cs
  else
    match foldName? cs with
    | none => .error .badDomain
    | some [] => .error .emptyHost
    | some name =>
      if endsInNumber name then
        match address4? name with
        | some n => .ok (.address4 n)
        | none => .error .badAddress4
      else .ok (.name (String.ofList name))

def outsideHost (c : Char) : Bool :=
  ['\x00', '\t', '\n', '\r', ' ', '#', '/', ':', '<', '>', '?', '@', '[', '\\', ']', '^',
    '|'].contains c

def plainHost (cs : List Char) : Except UrlError Host :=
  if cs.head? == some '[' then bracketed? cs
  else if cs.any outsideHost then .error .badCharacter
  else if cs.isEmpty then .ok .none
  else .ok (.name (String.ofList (percentEncode isRare cs)))

def readHost (kind : SchemeKind) (cs : List Char) : Except UrlError (Host × List Char) :=
  let (text, rest) := hostText kind false cs
  match kind with
  | .other => (plainHost text).map (·, rest)
  | _ => if text.isEmpty then .error .emptyHost else (webHost text).map (·, rest)

def greatestPort : Nat := 65535

def readPort (sum : Nat) (any : Bool) : List Char → Except UrlError (Option Nat × List Char)
  | [] => .ok (if any then some sum else none, [])
  | c :: cs =>
    if c.isDigit then
      let sum := 10 * sum + (c.toNat - '0'.toNat)
      if greatestPort < sum then .error .badPort else readPort sum true cs
    else if ['/', '\\', '?', '#'].contains c then .ok (if any then some sum else none, c :: cs)
    else .error .badPort

/-- Host, port and the rest. A port needs a host, and the usual port is left out. -/
def readAuthority (scheme : String) (cs : List Char) :
    Except UrlError (Host × Option Nat × List Char) := do
  let kind := schemeKind scheme
  let (named, cs) ← skipUserinfo kind cs
  let (host, rest) ← readHost kind cs
  let (port, rest) ←
    match rest with
    | ':' :: digits => if host = .none then .error .emptyHost else readPort 0 false digits
    | rest => .ok (none, rest)
  if host = .none ∧ named then .error .emptyHost
  else .ok (host, if port = defaultPort? scheme then none else port, rest)

/-! ## Path -/

def dots : List (List Char) := [".", "%2e", "%2E"].map String.toList

def isDot (segment : List Char) : Bool := dots.contains segment

def isTwoDots (segment : List Char) : Bool :=
  dots.any fun first => dots.any fun second => first ++ second == segment

/-- A letter with a colon, or a bar in its place, that names a drive. -/
def isDrive : List Char → Bool
  | [c, d] => c.isAlpha && (d == ':' || d == '|')
  | _ => false

abbrev Names := List (List Char)

/-- Takes a segment to the names before it; `last` says that no slash follows. Dots climb or stay,
and the name of a drive is kept and written with a colon. -/
def step (kind : SchemeKind) (names : Names) (segment : List Char) (last : Bool) : Names :=
  let folder (ns : Names) : Names := if last then [] :: ns else ns
  if isTwoDots segment then
    match names with
    | [name] => folder (if kind == .file && isDrive name then names else [])
    | ns => folder ns.tail
  else if isDot segment then folder names
  else if kind == .file && names.isEmpty && isDrive segment then
    [segment.take 1 ++ [':']]
  else percentEncode outsidePath segment :: names

def steps (kind : SchemeKind) : Names → List (List Char) → Names
  | names, [] => names
  | names, [segment] => step kind names segment true
  | names, segment :: rest => steps kind (step kind names segment false) rest

/-- The path of a file has no empty names in front. -/
def trimNames (kind : SchemeKind) (names : List (List Char)) : List (List Char) :=
  if kind == .file then
    match names.dropWhile (·.isEmpty) with
    | [] => [[]]
    | ns => ns
  else names

def readNames (kind : SchemeKind) (before : Names) (cs : List Char) :
    List (List Char) × List Char :=
  let text := cs.takeWhile fun c => c ≠ '?' && c ≠ '#'
  let rest := cs.dropWhile fun c => c ≠ '?' && c ≠ '#'
  (trimNames kind (steps kind before (splitBy (isSlash kind) text)).reverse, rest)

def pathOf (names : List (List Char)) : Path := .segments (names.map String.ofList)

/-- The path behind an authority. Only another scheme's may be empty. -/
def readPath (kind : SchemeKind) (cs : List Char) : List (List Char) × List Char :=
  match cs with
  | c :: rest =>
    if isSlash kind c then readNames kind [] rest
    else if kind == .other && (c == '?' || c == '#') then ([], cs)
    else readNames kind [] cs
  | [] => if kind == .other then ([], []) else ([[]], [])

/-! ## Query -/

/-- The query, if there is one; a fragment behind it is dropped. -/
def readQuery (kind : SchemeKind) : List Char → Option String
  | '?' :: cs =>
    let outside := if kind == .other then outsideQuery else outsideWebQuery
    some (String.ofList (percentEncode outside (cs.takeWhile (· ≠ '#'))))
  | _ => none

/-! ## Whole addresses -/

def readFromAuthority (scheme : String) (cs : List Char) : Except UrlError Url := do
  let kind := schemeKind scheme
  let (host, port, rest) ← readAuthority scheme cs
  let (names, rest) := readPath kind rest
  .ok ⟨scheme, host, port, pathOf names, readQuery kind rest⟩

def readPlain (scheme : String) (cs : List Char) : Url :=
  match cs with
  | '/' :: rest =>
    let (names, rest) := readNames .other [] rest
    ⟨scheme, .none, none, pathOf names, readQuery .other rest⟩
  | cs =>
    let text := cs.takeWhile fun c => c ≠ '?' && c ≠ '#'
    let rest := cs.dropWhile fun c => c ≠ '?' && c ≠ '#'
    ⟨scheme, .none, none, .plain (String.ofList (percentEncode isRare text)),
      readQuery .other rest⟩

/-- The host of a file; the machine itself has none, and neither has a drive. -/
def fileHost (cs : List Char) : Except UrlError (Host × List Char) :=
  let text := cs.takeWhile (!endsAuthority .file ·)
  let rest := cs.dropWhile (!endsAuthority .file ·)
  if isDrive text then .ok (.none, cs)
  else if text.isEmpty then .ok (.none, rest)
  else
    (webHost text).map fun host => (if host = .name "localhost" then .none else host, rest)

/-- The address of a file, behind its scheme. A path that begins with a drive has no host. -/
def readFile (cs : List Char) : Except UrlError Url := do
  match cs with
  | a :: b :: rest =>
    if isSlash .file a && isSlash .file b then
      let (host, rest) ← fileHost rest
      let (names, rest) := readPath .file rest
      let host := if names.head?.any isDrive then .none else host
      return ⟨"file", host, none, pathOf names, readQuery .file rest⟩
  | _ => pure ()
  let (names, rest) := readPath .file cs
  return ⟨"file", .none, none, pathOf names, readQuery .file rest⟩

def readBehindScheme (scheme : String) (cs : List Char) : Except UrlError Url :=
  match schemeKind scheme with
  | .web => readFromAuthority scheme (cs.dropWhile (isSlash .web))
  | .file => readFile cs
  | .other =>
    match cs with
    | '/' :: '/' :: rest => readFromAuthority scheme rest
    | cs => .ok (readPlain scheme cs)

def read (text : String) : Except UrlError Url :=
  match scheme? (cleaned text.toList) with
  | some (scheme, rest) => readBehindScheme scheme rest
  | none => .error .relativeWithoutBase

/-- An address without a scheme, seen from an address of the web. Behind two plain slashes the
authority begins at once. -/
def readRelative (base : Url) (cs : List Char) : Except UrlError Url :=
  let kind := schemeKind base.scheme
  let names := base.pathNames.map String.toList
  match cs with
  | [] => .ok base
  | '#' :: _ => .ok base
  | '?' :: _ => .ok { base with query := readQuery kind cs }
  | c :: rest =>
    if isSlash kind c then
      if c = '/' ∧ rest.head? = some '/' then readFromAuthority base.scheme (rest.drop 1)
      else if rest.head?.any (isSlash kind) then
        readFromAuthority base.scheme (rest.dropWhile (isSlash kind))
      else
        let (names, rest) := readNames kind [] rest
        .ok { base with path := pathOf names, query := readQuery kind rest }
    else
      let (names, rest) := readNames kind names.dropLast.reverse cs
      .ok { base with path := pathOf names, query := readQuery kind rest }

def resolve (base : Url) (text : String) : Except UrlError Url :=
  let cs := cleaned text.toList
  match scheme? cs with
  | some (scheme, rest) =>
    if scheme = base.scheme ∧ schemeKind scheme = .web ∧
        (rest.takeWhile (isSlash .web)).length < 2 then
      readRelative base rest
    else readBehindScheme scheme rest
  | none =>
    match base.path with
    | .plain _ => .error .relativeToPlain
    | .segments _ => readRelative base cs

end DesignComponents.Url
