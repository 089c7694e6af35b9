import DesignComponents.Design.Decode

/-!
# Writing designs

A node as a JSON object with all its fields, in the order in which they are read; what is not
set is null.
-/

namespace DesignComponents

open Json

def nullOr {α : Type} (encode : α → Json) : Option α → Json
  | some x => encode x
  | none => null

def Color.toJson (c : Color) : Json :=
  object [("r", float c.red), ("g", float c.green), ("b", float c.blue), ("a", float c.alpha)]

def Box.toJson (b : Box) : Json :=
  object [("x", float b.left), ("y", float b.top), ("width", float b.width),
    ("height", float b.height)]

def TypeStyle.toJson (s : TypeStyle) : Json :=
  object [("fontFamily", nullOr string s.fontFamily), ("fontSize", nullOr float s.fontSize),
    ("fontWeight", nullOr float s.fontWeight), ("lineHeightPx", nullOr float s.lineHeight)]

def Paint.toJson (p : Paint) : Json :=
  object [("type", nullOr string p.kind), ("color", nullOr Color.toJson p.color),
    ("opacity", nullOr float p.opacity)]

def Offset.toJson (o : Offset) : Json := object [("x", float o.x), ("y", float o.y)]

def Effect.toJson (e : Effect) : Json :=
  object [("type", string e.kind.word), ("visible", bool e.visible),
    ("radius", nullOr float e.radius), ("offset", nullOr Offset.toJson e.offset),
    ("color", nullOr Color.toJson e.color)]

def Layer.toFields (l : Layer) : List (String × Json) :=
  [("id", string l.id), ("name", string l.name), ("type", string l.kind.word),
    ("visible", bool l.visible), ("absoluteBoundingBox", nullOr Box.toJson l.box),
    ("layoutMode", nullOr (fun m => string m.word) l.layoutMode),
    ("paddingTop", nullOr float l.paddingTop), ("paddingBottom", nullOr float l.paddingBottom),
    ("paddingLeft", nullOr float l.paddingLeft), ("paddingRight", nullOr float l.paddingRight),
    ("itemSpacing", nullOr float l.itemSpacing),
    ("primaryAxisAlignItems", nullOr (fun a => string a.word) l.mainAlignment),
    ("counterAxisAlignItems", nullOr (fun a => string a.word) l.crossAlignment),
    ("layoutWrap", nullOr (fun w => string w.word) l.wrap),
    ("fills", array (l.fills.map Paint.toJson)), ("strokes", array (l.strokes.map Paint.toJson)),
    ("effects", array (l.effects.map Effect.toJson)),
    ("cornerRadius", nullOr float l.cornerRadius),
    ("backgroundColor", nullOr Color.toJson l.background),
    ("characters", nullOr string l.characters), ("style", nullOr TypeStyle.toJson l.typeStyle)]

namespace Node

mutual

def toJson : Node → Json
  | mk layer children => object (layer.toFields ++ [("children", array (toJsonList children))])

def toJsonList : List Node → List Json
  | [] => []
  | node :: rest => toJson node :: toJsonList rest

end

end Node

end DesignComponents
