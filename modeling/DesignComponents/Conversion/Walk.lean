import DesignComponents.Conversion.Task

/-!
# The walk over a design

Starts a node and the nodes below it in reading order: a layer is classified, what it asks for
is asked for, and only then its children are started. A table starts its heads before its cells.
-/

namespace DesignComponents

structure Walk where
  fileKey : String
  reuse : Option Reuse
  image : (id : String) → Fetch

namespace Walk

def startImage (w : Walk) (layer : Layer) (form : ImageForm) : StateM Ledger Task := do
  modify (Ledger.record (.image w.fileKey layer.id))
  pure (.image (w.image layer.id) form layer.classes)

def textOf (layer : Layer) : String := trimmed (layer.characters.getD "")

/-- A label shows the name of the first text inside it. -/
def labelOf : Option Layer → Option Element
  | some text => some (.label text.name text.classes)
  | none => none

/-- An input shows the first text inside it as its placeholder, in the color of that text. -/
def inputOf (layer : Layer) : Option Layer → Element
  | some text => .input (textOf text) (layer.classes ++ text.textColorClasses)
  | none => .input "" layer.classes

def firstText? (children : List Node) : Option Layer :=
  (children.find? (·.layer.kind == .text)).map (·.layer)

mutual

def start (w : Walk) : Node → StateM Ledger Task
  | .mk layer children => do
    match ← layer.classify (Ledger.componentFor w.reuse) with
    | .empty => pure (.done none)
    | .reference name => pure (.shown (.reference name))
    | .image => w.startImage layer .plain
    | .imageContainer => w.startImage layer .contained
    | .text => pure (.shown (.text (textOf layer) layer.classes))
    | .label => pure (.done (labelOf (firstText? children)))
    | .input => pure (.shown (inputOf layer (firstText? children)))
    | .table => do
      let heads ← startHeads w children
      let cells ← startCells w children
      pure (.table heads cells)
    | .headingCell => do
      let content ← startAll w children
      pure (.headingCell content layer.classes)
    | .dataCell => do
      let content ← startAll w children
      pure (.dataCell content layer.classes)
    | .container => do
      let content ← startAll w children
      pure (.container content layer.classes)

def startAll (w : Walk) : List Node → StateM Ledger (List Task)
  | [] => pure []
  | n :: rest => do
    let t ← start w n
    let ts ← startAll w rest
    pure (t :: ts)

def startHeads (w : Walk) : List Node → StateM Ledger (List Task)
  | [] => pure []
  | .mk column (head :: _) :: rest =>
    if column.visible then do
      let t ← start w head
      let ts ← startHeads w rest
      pure (t :: ts)
    else startHeads w rest
  | .mk _ [] :: rest => startHeads w rest

def startCells (w : Walk) : List Node → StateM Ledger (List Task)
  | [] => pure []
  | .mk column (_ :: cell :: _) :: rest =>
    if column.visible then do
      let t ← start w cell
      let ts ← startCells w rest
      pure (t :: ts)
    else startCells w rest
  | .mk _ [_] :: rest => startCells w rest
  | .mk _ [] :: rest => startCells w rest

end

end Walk

end DesignComponents
