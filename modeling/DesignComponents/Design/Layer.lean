import DesignComponents.Color.Rgba

/-!
# Layers

What a design says of one layer, apart from the layers inside it: its identity, its place, its
layout, its paints and its text. Only the properties that styling or classification reads are
kept. An enumeration of the format that grows over time has the case `other`.
-/

namespace DesignComponents

inductive LayerKind where
  | document | canvas | frame | group | canvasSection | text | vector | booleanOperation
  | ellipse | line | rectangle | component | componentSet | componentInstance | other
  deriving DecidableEq, Repr

namespace LayerKind

def word : LayerKind → String
  | document => "DOCUMENT"
  | canvas => "CANVAS"
  | frame => "FRAME"
  | group => "GROUP"
  | canvasSection => "SECTION"
  | text => "TEXT"
  | vector => "VECTOR"
  | booleanOperation => "BOOLEAN_OPERATION"
  | ellipse => "ELLIPSE"
  | line => "LINE"
  | rectangle => "RECTANGLE"
  | component => "COMPONENT"
  | componentSet => "COMPONENT_SET"
  | componentInstance => "INSTANCE"
  | other => "OTHER"

def all : List LayerKind :=
  [document, canvas, frame, group, canvasSection, text, vector, booleanOperation, ellipse,
    line, rectangle, component, componentSet, componentInstance, other]

end LayerKind

inductive LayoutMode where
  | none | horizontal | vertical | other
  deriving DecidableEq, Repr

namespace LayoutMode

def word : LayoutMode → String
  | none => "NONE"
  | horizontal => "HORIZONTAL"
  | vertical => "VERTICAL"
  | other => "OTHER"

def all : List LayoutMode := [none, horizontal, vertical, other]

end LayoutMode

inductive MainAlignment where
  | start | center | finish | spaceBetween | spaceAround | spaceEvenly | other
  deriving DecidableEq, Repr

namespace MainAlignment

def word : MainAlignment → String
  | start => "MIN"
  | center => "CENTER"
  | finish => "MAX"
  | spaceBetween => "SPACE_BETWEEN"
  | spaceAround => "SPACE_AROUND"
  | spaceEvenly => "SPACE_EVENLY"
  | other => "OTHER"

def all : List MainAlignment :=
  [start, center, finish, spaceBetween, spaceAround, spaceEvenly, other]

end MainAlignment

inductive CrossAlignment where
  | start | center | finish | baseline | other
  deriving DecidableEq, Repr

namespace CrossAlignment

def word : CrossAlignment → String
  | start => "MIN"
  | center => "CENTER"
  | finish => "MAX"
  | baseline => "BASELINE"
  | other => "OTHER"

def all : List CrossAlignment := [start, center, finish, baseline, other]

end CrossAlignment

inductive LayoutWrap where
  | noWrap | wrap | other
  deriving DecidableEq, Repr

namespace LayoutWrap

def word : LayoutWrap → String
  | noWrap => "NO_WRAP"
  | wrap => "WRAP"
  | other => "OTHER"

def all : List LayoutWrap := [noWrap, wrap, other]

end LayoutWrap

inductive EffectKind where
  | dropShadow | innerShadow | layerBlur | backgroundBlur | other
  deriving DecidableEq, Repr

namespace EffectKind

def word : EffectKind → String
  | dropShadow => "DROP_SHADOW"
  | innerShadow => "INNER_SHADOW"
  | layerBlur => "LAYER_BLUR"
  | backgroundBlur => "BACKGROUND_BLUR"
  | other => "OTHER"

def all : List EffectKind := [dropShadow, innerShadow, layerBlur, backgroundBlur, other]

end EffectKind

structure Box where
  left : Double
  top : Double
  width : Double
  height : Double
  deriving DecidableEq

structure TypeStyle where
  fontFamily : Option String
  fontSize : Option Double
  fontWeight : Option Double
  lineHeight : Option Double
  deriving DecidableEq

structure Paint where
  kind : Option String
  color : Option Color
  opacity : Option Double
  deriving DecidableEq

structure Offset where
  x : Double
  y : Double
  deriving DecidableEq

structure Effect where
  kind : EffectKind
  visible : Bool
  radius : Option Double
  offset : Option Offset
  color : Option Color
  deriving DecidableEq

structure Layer where
  id : String
  name : String
  kind : LayerKind
  visible : Bool
  box : Option Box
  layoutMode : Option LayoutMode
  paddingTop : Option Double
  paddingBottom : Option Double
  paddingLeft : Option Double
  paddingRight : Option Double
  itemSpacing : Option Double
  mainAlignment : Option MainAlignment
  crossAlignment : Option CrossAlignment
  wrap : Option LayoutWrap
  fills : List Paint
  strokes : List Paint
  effects : List Effect
  cornerRadius : Option Double
  background : Option Color
  characters : Option String
  typeStyle : Option TypeStyle
  deriving DecidableEq

namespace Layer

def displayName (l : Layer) : String := if l.name = "" then "Unnamed" else l.name

def content (l : Layer) : String := l.characters.getD ""

/-- The place of a layer's top left corner; one without a box lies at the origin. -/
def top (l : Layer) : Double := (l.box.map (·.top)).getD 0

def left (l : Layer) : Double := (l.box.map (·.left)).getD 0

/-- The order of two numbers; what cannot be compared counts as equal. -/
def compareNumbers (x y : Double) : Ordering := (Binary.compare? x y).getD .eq

def readingOrder (a b : Layer) : Ordering :=
  (compareNumbers a.top b.top).then (compareNumbers a.left b.left)

end Layer

end DesignComponents
