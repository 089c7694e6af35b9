import DesignComponents.Config
import DesignComponents.Failure
import DesignComponents.Project.Target

/-!
# Settings of a run

What a run takes from its flags, from the project and from the configuration, flags first.
-/

namespace DesignComponents

structure Flags where
  framework : Option String
  typescript : Bool
  noReuse : Bool
  deriving DecidableEq, Repr

structure Settings where
  framework : Framework
  extension : String
  reuse : Bool
  deriving DecidableEq, Repr

namespace Settings

/-- The framework of the flags, or else that of the project. -/
def chooseFramework (flags : Flags) (detected : Target) : Except Failure Framework :=
  match flags.framework, detected.framework with
  | some name, _ =>
    match Framework.ofName? name with
    | some f => .ok f
    | none => .error (.unknownFramework name)
  | none, some f => .ok f
  | none, none =>
    .error (.unknownFramework
      "no react, vue or @angular/core dependency found in package.json")

def resolve (flags : Flags) (detected : Target) (typescript : Bool) (config : Config) :
    Except Failure Settings := do
  let f ← chooseFramework flags detected
  pure
    { framework := f
      extension := f.extension (flags.typescript || typescript)
      reuse := !flags.noReuse && config.reuseComponents }

def truthText (b : Bool) : String := if b then "true" else "false"

def line (s : Settings) (config : Config) (path : Option String) : String :=
  "Effective config [" ++ path.getD "defaults" ++ "]: framework=" ++ s.framework.word ++
    ", extension=" ++ s.extension ++ ", reuse=" ++ truthText s.reuse ++
    ", components_dir=" ++ config.componentsDir ++
    ", angular_app_dir=" ++ config.angularAppDir ++
    ", image=" ++ config.image.format.word ++ "@" ++ config.image.scale.plain ++ "x" ++
    ", request_timeout=" ++ toString config.requestTimeout.seconds ++ "s"

end Settings

end DesignComponents
