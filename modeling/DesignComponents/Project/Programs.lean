import DesignComponents.Component.File
import DesignComponents.Project.FileTree

/-!
# Programs

How a program ends that is run in a directory. It may change files whichever way it ends.
-/

namespace DesignComponents

inductive ProgramEnd where
  | notStarted (text : String)
  | exited (status : Nat)
  | killed (signal : Nat) (name : String)
  deriving DecidableEq, Repr

def ProgramEnd.message : ProgramEnd → String
  | notStarted text => text
  | exited status => "exit status: " ++ toString status
  | killed signal name => "signal: " ++ toString signal ++ " (" ++ name ++ ")"

/-- What runs a command in a directory: how it ends, and the files it leaves. -/
abbrev Programs := Scaffold → Place → FileTree → ProgramEnd × FileTree

namespace Programs

def none : Programs := fun _ _ t => (.notStarted FileError.notFound.message, t)

end Programs

end DesignComponents
