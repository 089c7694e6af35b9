import DesignComponents.Path
import DesignComponents.Text.Utf8

/-!
# File trees

Directories and files by their places: the names on the way from the root, which is always a
directory. A path is walked from a place name by name, and every name but the last has to lead to
a directory. Failures are those of the operating system.
-/

namespace DesignComponents

abbrev Place := List String

inductive FileEntry where
  | directory
  | file (contents : String)
  deriving DecidableEq, Repr

inductive FileError where
  | notFound | alreadyThere | notADirectory | isADirectory | nameTooLong | strayNul
  deriving DecidableEq, Repr

namespace FileError

def numbered (text : String) (number : Nat) : String :=
  text ++ " (os error " ++ toString number ++ ")"

def message : FileError → String
  | notFound => numbered "No such file or directory" 2
  | alreadyThere => numbered "File exists" 17
  | notADirectory => numbered "Not a directory" 20
  | isADirectory => numbered "Is a directory" 21
  | nameTooLong => numbered "File name too long" 36
  | strayNul => "file name contained an unexpected NUL byte"

end FileError

structure FileTree where
  entries : List (Place × FileEntry)
  deriving DecidableEq, Repr

namespace FileTree

def empty : FileTree := ⟨[]⟩

/-! ## Entries -/

def entryOf? (place : Place) : List (Place × FileEntry) → Option FileEntry
  | [] => none
  | (p, e) :: rest => if p = place then some e else entryOf? place rest

def entry? (t : FileTree) (place : Place) : Option FileEntry :=
  match place with
  | [] => some .directory
  | place => entryOf? place t.entries

def putEntry (place : Place) (entry : FileEntry) :
    List (Place × FileEntry) → List (Place × FileEntry)
  | [] => [(place, entry)]
  | (p, e) :: rest => if p = place then (p, entry) :: rest else (p, e) :: putEntry place entry rest

def put (t : FileTree) (place : Place) (entry : FileEntry) : FileTree :=
  ⟨putEntry place entry t.entries⟩

def erase (t : FileTree) (place : Place) : FileTree := ⟨t.entries.filter (·.1 ≠ place)⟩

def filesBelow (t : FileTree) (place : Place) : List (String × String) :=
  t.entries.filterMap fun (p, e) =>
    match e with
    | .directory => none
    | .file contents =>
      if place.isPrefixOf p then some ("/".intercalate (p.drop place.length), contents) else none

/-! ## Walks -/

def longestName : Nat := 255

def longestPath : Nat := 4095

def isDots (name : String) : Bool := name == "." || name == ".."

def checkPath (path : String) : Except FileError Unit :=
  if path.toList.contains '\x00' then .error .strayNul
  else if path.isEmpty then .error .notFound
  else if longestPath < path.utf8ByteSize then .error .nameTooLong
  else .ok ()

def checkName (name : String) : Except FileError Unit :=
  if longestName < name.utf8ByteSize then .error .nameTooLong else .ok ()

def directoryAt (t : FileTree) (place : Place) : Except FileError Place :=
  match t.entry? place with
  | some .directory => .ok place
  | some (.file _) => .error .notADirectory
  | none => .error .notFound

/-- The place that the names lead to. There need not be anything at the last. -/
def walk (t : FileTree) : (here : Place) → List String → Except FileError Place
  | here, [] => .ok here
  | here, name :: rest => do
    let here ← t.directoryAt here
    if name = "." then walk t here rest
    else if name = ".." then walk t here.dropLast rest
    else
      checkName name
      walk t (here ++ [name]) rest

def directoryOf (t : FileTree) (here : Place) (names : List String) : Except FileError Place := do
  t.directoryAt (← t.walk here names)

def startOf (here : Place) (path : String) : Place := if Path.isAbsolute path then [] else here

def asksForDirectory (path : String) : Bool := path.toList.getLast? == some '/'

def find (t : FileTree) (here : Place) (path : String) : Except FileError Place := do
  checkPath path
  if asksForDirectory path then t.directoryOf (startOf here path) (Path.parts path)
  else t.walk (startOf here path) (Path.parts path)

/-! ## Reading -/

def isFile (t : FileTree) (here : Place) (path : String) : Bool :=
  match t.find here path with
  | .ok place =>
    match t.entry? place with
    | some (.file _) => true
    | _ => false
  | .error _ => false

def read (t : FileTree) (here : Place) (path : String) : Except FileError String := do
  match t.entry? (← t.find here path) with
  | some (.file contents) => .ok contents
  | some .directory => .error .isADirectory
  | none => .error .notFound

def directory (t : FileTree) (here : Place) (path : String) : Except FileError Place := do
  t.directoryAt (← t.find here path)

/-! ## Writing -/

/-- Makes the directory that the names lead to, where there must be nothing yet. -/
def makeDirectory (t : FileTree) (here : Place) (names : List String) :
    Except FileError FileTree := do
  match names.getLast? with
  | none => .error .alreadyThere
  | some name =>
    let parent ← t.directoryOf here names.dropLast
    checkName name
    if isDots name || (t.entry? (parent ++ [name])).isSome then .error .alreadyThere
    else .ok (t.put (parent ++ [name]) .directory)

def ensureDirectory (t : FileTree) (here : Place) (names : List String) :
    Except FileError FileTree :=
  match t.makeDirectory here names with
  | .ok t => .ok t
  | .error e =>
    match t.directoryOf here names with
    | .ok _ => .ok t
    | .error _ => .error e

/-- Makes a directory and those above it as far as they are missing; the last name comes first.
What was made stays when a later one fails. -/
def ensureDirectories (t : FileTree) (here : Place) :
    (namesBackwards : List String) → Except FileError Unit × FileTree
  | [] => (.ok (), t)
  | name :: above =>
    let names := (name :: above).reverse
    match t.ensureDirectory here names with
    | .ok t => (.ok (), t)
    | .error .notFound =>
      match ensureDirectories t here above with
      | (.error e, t) => (.error e, t)
      | (.ok (), t) =>
        match t.ensureDirectory here names with
        | .ok t => (.ok (), t)
        | .error e => (.error e, t)
    | .error e => (.error e, t)

def ensureParents (t : FileTree) (here : Place) (path : String) : Except FileError Unit × FileTree :=
  if path.toList.contains '\x00' then (.error .strayNul, t)
  else t.ensureDirectories (startOf here path) (Path.significantParts path).dropLast.reverse

def write (t : FileTree) (here : Place) (path contents : String) : Except FileError FileTree := do
  checkPath path
  let names := Path.parts path
  match names.getLast? with
  | none => .error .isADirectory
  | some name =>
    let parent ← t.directoryOf (startOf here path) names.dropLast
    if asksForDirectory path || isDots name then .error .isADirectory
    else
      checkName name
      match t.entry? (parent ++ [name]) with
      | some .directory => .error .isADirectory
      | _ => .ok (t.put (parent ++ [name]) (.file contents))

end FileTree

end DesignComponents
