import DesignComponents.Component.Imports
import DesignComponents.Component.Name
import DesignComponents.Design.Layer

/-!
# The ledger of a conversion

What a conversion keeps while it walks a design: which components it refers to, what it was told
of existing ones, and what it asked for, in order. A name is asked for once; later layers of that
name get the first answer.
-/

namespace DesignComponents

inductive Call where
  | document (fileKey id : String)
  | image (fileKey id : String)
  | lookup (name extension : String)
  | write (path : String)
  deriving DecidableEq, Repr

namespace Call

def line : Call → String
  | document fileKey id => "document " ++ fileKey ++ " " ++ id
  | image fileKey id => "image " ++ fileKey ++ " " ++ id
  | lookup name extension => "exists " ++ name ++ " " ++ extension
  | write path => "write " ++ path

end Call

/-- What is known of existing components: whether there is one of a name. The answer may depend
on the names asked for before. -/
abbrev Catalogue := (earlier : List String) → (name : String) → Bool

/-- How a conversion reuses components: never one named like the root. -/
structure Reuse where
  rootName : String
  extension : String
  catalogue : Catalogue

structure Ledger where
  imports : Imports
  answers : List (String × Bool)
  calls : List Call

namespace Ledger

def empty : Ledger := ⟨.empty, [], []⟩

def known? (name : String) : List (String × Bool) → Option Bool
  | [] => none
  | (asked, answer) :: rest => if asked = name then some answer else known? name rest

def record (call : Call) (l : Ledger) : Ledger := { l with calls := l.calls ++ [call] }

/-- Whether there is a component of this name, which is asked for if it was not before. -/
def exists? (r : Reuse) (name : String) (l : Ledger) : Bool × Ledger :=
  match known? name l.answers with
  | some answer => (answer, l)
  | none =>
    let answer := r.catalogue (l.answers.map (·.1)) name
    (answer,
      { l with
        answers := l.answers ++ [(name, answer)]
        calls := l.calls ++ [.lookup name r.extension] })

/-- The component that stands for a layer, which is imported then. -/
def componentFor (reuse : Option Reuse) (layer : Layer) (l : Ledger) : Option String × Ledger :=
  match reuse with
  | none => (none, l)
  | some r =>
    let name := componentName layer.displayName
    if name = r.rootName then (none, l)
    else
      match exists? r name l with
      | (true, l) => (some name, { l with imports := l.imports.insert name })
      | (false, l) => (none, l)

end Ledger

end DesignComponents
