import DesignComponents.Design.Layer

/-!
# Design trees

A node is a layer with the nodes inside it, in the order of the design.
-/

namespace DesignComponents

inductive Node where
  | mk (layer : Layer) (children : List Node)

namespace Node

def layer : Node → Layer
  | mk layer _ => layer

def children : Node → List Node
  | mk _ children => children

@[simp] theorem layer_mk (l : Layer) (cs : List Node) : (mk l cs).layer = l := rfl

@[simp] theorem children_mk (l : Layer) (cs : List Node) : (mk l cs).children = cs := rfl

def id (n : Node) : String := n.layer.id

def visible (n : Node) : Bool := n.layer.visible

/-- The first child that is a text, visible or not. -/
def firstText? (n : Node) : Option Node := n.children.find? (·.layer.kind == .text)

def readsBefore (a b : Node) : Bool := a.layer.readingOrder b.layer != .gt

/-- The node with its own children in reading order; children at one place keep their order, and
deeper levels stay as they are. -/
def inReadingOrder : Node → Node
  | mk layer children => mk layer (children.mergeSort readsBefore)

end Node

end DesignComponents
