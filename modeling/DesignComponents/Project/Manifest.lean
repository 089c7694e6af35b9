import DesignComponents.Json.Reader
import DesignComponents.Project.FileTree
import DesignComponents.Project.Target

/-!
# The manifest of a project

A project declares what it depends on in its manifest, and that it is written in TypeScript by a
file of settings for the compiler. A manifest that is missing or no JSON declares nothing.
-/

namespace DesignComponents

namespace Project

def manifestName : String := "package.json"

def compilerSettingsName : String := "tsconfig.json"

def manifest? (t : FileTree) (here : Place) (directory : String) : Option Json :=
  match t.read here (Path.join directory manifestName) with
  | .ok text => Json.parse? text
  | .error _ => none

def isTypescript (t : FileTree) (here : Place) (directory : String) : Bool :=
  t.isFile here (Path.join directory compilerSettingsName)

def target (t : FileTree) (here : Place) (directory : String) : Target :=
  match manifest? t here directory with
  | some manifest => .ofManifest manifest (isTypescript t here directory)
  | none => .unknown

end Project

end DesignComponents
