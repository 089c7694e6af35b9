import DesignComponents.Conversion.Component
import DesignComponents.Failure
import DesignComponents.Project.Programs

/-!
# The components of a project

Components are files below a root, each at the path that its framework gives it. Before a file
is written the command that lays its ground is run in the directory of the project, and when that
fails nothing is written.
-/

namespace DesignComponents

/-- A project as seen from a working directory: its own directory, the root of its components,
and what runs programs for it. -/
structure Project where
  workingPlace : Place
  directory : String
  root : String
  programs : Programs

namespace Project

def pathFor (p : Project) (f : Framework) (name extension : String) : String :=
  Path.join p.root (f.filePath name extension)

def holds (p : Project) (t : FileTree) (f : Framework) (name extension : String) : Bool :=
  t.isFile p.workingPlace (p.pathFor f name extension)

def runScaffold (p : Project) (file : ComponentFile) (t : FileTree) :
    Except Failure Unit × FileTree :=
  match file.scaffold with
  | none => (.ok (), t)
  | some scaffold =>
    match t.directory p.workingPlace p.directory with
    | .error e => (.error (.scaffold scaffold.line e.message), t)
    | .ok place =>
      match p.programs scaffold place t with
      | (.exited 0, t) => (.ok (), t)
      | (ending, t) => (.error (.scaffold scaffold.line ending.message), t)

def writeFile (p : Project) (file : ComponentFile) (t : FileTree) :
    Except Failure String × FileTree :=
  let path := Path.join p.root file.path
  match t.ensureParents p.workingPlace path with
  | (.error e, t) => (.error (.files e.message), t)
  | (.ok (), t) =>
    match t.write p.workingPlace path file.contents with
    | .error e => (.error (.files e.message), t)
    | .ok t => (.ok path, t)

def write (p : Project) (file : ComponentFile) (t : FileTree) :
    Except Failure String × FileTree :=
  match p.runScaffold file t with
  | (.error e, t) => (.error e, t)
  | (.ok (), t) => p.writeFile file t

def store (p : Project) : Store FileTree where
  holds t f name extension := p.holds t f name extension
  write t _ file := p.write file t

end Project

end DesignComponents
