import DesignComponents.Design.Layer
import DesignComponents.Text.Blank

/-!
# Roles

What a layer becomes in a component. An invisible layer becomes nothing, a layer with a component
of its own a reference to it; for the others the first rule that fits decides, by the kind and
the name of the layer.
-/

namespace DesignComponents

inductive Role where
  | image | imageContainer | text | label | input | table | headingCell | dataCell | container
  | reference (name : String)
  | empty
  deriving DecidableEq, Repr

namespace Layer

/-- The name by which rules go, in lower case. Only ASCII letters are changed: no other letter
is in lower case one of those that the rules look for. -/
def keyword (l : Layer) : List Char := l.displayName.toList.map Char.toLower

def leadingPart (name : List Char) : List Char := name.takeWhile (· ≠ '-')

def ownRole (l : Layer) : Role :=
  let name := l.keyword
  if l.kind = .vector ∨ l.kind = .componentInstance then .image
  else if name = "logo".toList then .image
  else if l.kind = .rectangle then .imageContainer
  else if l.kind = .text then .text
  else if leadingPart name = "label".toList then .label
  else if leadingPart name = "input".toList then .input
  else if occursIn "table".toList name then .table
  else if name = "heading-content".toList then .headingCell
  else if name = "data-content".toList then .dataCell
  else if l.kind = .frame ∨ l.kind = .group then .container
  else .empty

/-- The role of a layer. Whether it has a component of its own is asked once if the layer is
visible, and else not at all. -/
def classify {m : Type → Type} [Monad m] (component? : Layer → m (Option String)) (l : Layer) :
    m Role := do
  if l.visible then
    match ← component? l with
    | some name => pure (.reference name)
    | none => pure l.ownRole
  else pure .empty

end Layer

end DesignComponents
