import DesignComponents.Framework
import DesignComponents.Json.Value

/-!
# The target of a project

The framework that a project's manifest declares, and the extension of its components. A project
that declares none has no target.
-/

namespace DesignComponents

structure Target where
  framework : Option Framework
  extension : Option String
  deriving DecidableEq, Repr

namespace Target

def unknown : Target := ⟨none, none⟩

def ofFramework (f : Framework) (typescript : Bool) : Target := ⟨some f, some (f.extension typescript)⟩

def isKnown (t : Target) : Bool := t.framework.isSome

def dependencyFields : List String := ["dependencies", "devDependencies"]

/-- The frameworks by the dependency that gives them away; the first that is declared counts. -/
def signs : List (String × Framework) :=
  [("react", .react), ("vue", .vue), ("@angular/core", .angular)]

/-- Whether a manifest declares a dependency, of whatever version. -/
def declares (manifest : Json) (dependency : String) : Bool :=
  dependencyFields.any fun field => ((manifest.get? field).bind (·.get? dependency)).isSome

def ofManifest (manifest : Json) (typescript : Bool) : Target :=
  match signs.find? fun (dependency, _) => declares manifest dependency with
  | some (_, f) => ofFramework f typescript
  | none => unknown

end Target

end DesignComponents
