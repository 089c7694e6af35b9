import DesignComponents.Text.Blank

/-!
# Frameworks

The targets of generation and what sets them apart: how they are named, which extension their
files have, how they spell the class attribute, and whether one component can import another.
-/

namespace DesignComponents

inductive Framework where
  | html | react | vue | angular
  deriving DecidableEq, Repr

namespace Framework

def all : List Framework := [html, react, vue, angular]

def word : Framework → String
  | html => "html"
  | react => "react"
  | vue => "vue"
  | angular => "angular"

/-- The framework with this name, blanks around it and the case of letters aside. -/
def ofName? (name : String) : Option Framework :=
  let wanted := (trimBlanks name.toList).map Char.toLower
  all.find? fun f => f.word.toList == wanted

def extension (f : Framework) (typescript : Bool) : String :=
  match f with
  | html => "html"
  | react => if typescript then "tsx" else "jsx"
  | vue => "vue"
  | angular => "ts"

def classAttribute : Framework → String
  | react => "className"
  | _ => "class"

def importsComponents : Framework → Bool
  | react | vue => true
  | html | angular => false

end Framework

end DesignComponents
