import DesignComponents.Config
import DesignComponents.Failure
import DesignComponents.Project.FileTree

/-!
# The configuration of a run

The configuration is in the file that is asked for, or else in a file below the home directory if
that is there; otherwise every setting has its own value.
-/

namespace DesignComponents

namespace Config

/-- The file of the user's own configuration. An empty name is no home. -/
def centralPath? (home : Option String) : Option String :=
  (home.filter (· ≠ "")).map fun home =>
    ["figcomp", "config.toml"].foldl Path.join (Path.join home ".config")

def notReadable : String := "TOML parse error"

/-- The configuration in a file; `source` is what it is called in a failure. -/
def ofFile (t : FileTree) (here : Place) (path source : String) : Except Failure Config :=
  let failed (text : String) : Failure :=
    .configuration ("Failed to read config " ++ source ++ ": " ++ text)
  match t.read here path with
  | .error e => .error (failed e.message)
  | .ok text =>
    match read? text with
    | some c => .ok c
    | none => .error (failed notReadable)

def unchecked (t : FileTree) (here : Place) (home path : Option String) : Except Failure Config :=
  match path with
  | some path => ofFile t here path path
  | none =>
    match (centralPath? home).filter (t.isFile here ·) with
    | some path => ofFile t here path path
    | none => .ok standard

def invalid (path : Option String) (e : InvalidSetting) : Failure :=
  let source :=
    match path with
    | some path => " (" ++ path ++ ")"
    | none => ""
  .configuration ("Invalid config" ++ source ++ ": " ++ e.message)

def load (t : FileTree) (here : Place) (home path : Option String) : Except Failure Config := do
  let c ← unchecked t here home path
  (c.validate).mapError (invalid path)
  pure c

end Config

end DesignComponents
