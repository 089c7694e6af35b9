import DesignComponents.Design.Node
import DesignComponents.Json.Record

/-!
# Reading designs

Design trees and the answers of the design service, from JSON.
-/

namespace DesignComponents

open Json Json.Fields

namespace Color

def fieldNames : List String := ["r", "g", "b", "a"]

/-- A color without an alpha is opaque. -/
def ofJson? : Json → Option Color :=
  record fieldNames do
    let red ← required number?
    let green ← required number?
    let blue ← required number?
    let alpha ← defaulted 1 number?
    pure ⟨red, green, blue, alpha⟩

end Color

namespace Box

def fieldNames : List String := ["x", "y", "width", "height"]

def ofJson? : Json → Option Box :=
  record fieldNames do
    let left ← defaulted 0 number?
    let top ← defaulted 0 number?
    let width ← defaulted 0 number?
    let height ← defaulted 0 number?
    pure ⟨left, top, width, height⟩

end Box

namespace TypeStyle

def fieldNames : List String := ["fontFamily", "fontSize", "fontWeight", "lineHeightPx"]

def ofJson? : Json → Option TypeStyle :=
  record fieldNames do
    let fontFamily ← optional string?
    let fontSize ← optional number?
    let fontWeight ← optional number?
    let lineHeight ← optional number?
    pure ⟨fontFamily, fontSize, fontWeight, lineHeight⟩

end TypeStyle

namespace Paint

def fieldNames : List String := ["type", "color", "opacity"]

def ofJson? : Json → Option Paint :=
  record fieldNames do
    let kind ← optional string?
    let color ← optional Color.ofJson?
    let opacity ← optional number?
    pure ⟨kind, color, opacity⟩

end Paint

namespace Offset

def fieldNames : List String := ["x", "y"]

def ofJson? : Json → Option Offset :=
  record fieldNames do
    let x ← defaulted 0 number?
    let y ← defaulted 0 number?
    pure ⟨x, y⟩

end Offset

namespace Effect

def fieldNames : List String := ["type", "visible", "radius", "offset", "color"]

/-- An effect that does not say so is not visible. -/
def ofJson? : Json → Option Effect :=
  record fieldNames do
    let kind ← required (openCase? EffectKind.all EffectKind.word .other)
    let visible ← defaulted false bool?
    let radius ← optional number?
    let offset ← optional Offset.ofJson?
    let color ← optional Color.ofJson?
    pure ⟨kind, visible, radius, offset, color⟩

end Effect

namespace Layer

def fieldNames : List String :=
  ["id", "name", "type", "visible", "absoluteBoundingBox", "layoutMode", "paddingTop",
    "paddingBottom", "paddingLeft", "paddingRight", "itemSpacing", "primaryAxisAlignItems",
    "counterAxisAlignItems", "layoutWrap", "fills", "strokes", "effects", "cornerRadius",
    "backgroundColor", "characters", "style", "children"]

def ofJson? : Json → Option Layer :=
  record fieldNames do
    let id ← defaulted "" string?
    let name ← defaulted "" string?
    let kind ← defaulted .other (openCase? LayerKind.all LayerKind.word .other)
    let visible ← defaulted true bool?
    let box ← optional Box.ofJson?
    let layoutMode ← optional (openCase? LayoutMode.all LayoutMode.word .other)
    let paddingTop ← optional number?
    let paddingBottom ← optional number?
    let paddingLeft ← optional number?
    let paddingRight ← optional number?
    let itemSpacing ← optional number?
    let mainAlignment ← optional (openCase? MainAlignment.all MainAlignment.word .other)
    let crossAlignment ← optional (openCase? CrossAlignment.all CrossAlignment.word .other)
    let wrap ← optional (openCase? LayoutWrap.all LayoutWrap.word .other)
    let fills ← defaulted [] (list? Paint.ofJson?)
    let strokes ← defaulted [] (list? Paint.ofJson?)
    let effects ← defaulted [] (list? Effect.ofJson?)
    let cornerRadius ← optional number?
    let background ← optional Color.ofJson?
    let characters ← optional string?
    let typeStyle ← optional TypeStyle.ofJson?
    pure
      { id, name, kind, visible, box, layoutMode, paddingTop, paddingBottom, paddingLeft,
        paddingRight, itemSpacing, mainAlignment, crossAlignment, wrap, fills, strokes, effects,
        cornerRadius, background, characters, typeStyle }

end Layer

namespace Node

/-- The place of the children among the fields of a node. -/
def childrenPlace : Nat := 21

mutual

def ofJson? : Json → Option Node
  | object fields =>
    match Layer.ofJson? (object fields), childrenOfFields? fields with
    | some layer, some children => some (mk layer children)
    | _, _ => none
  | array items =>
    match Layer.ofJson? (array items), childrenOfItems? childrenPlace items with
    | some layer, some children => some (mk layer children)
    | _, _ => none
  | _ => none

def childrenOfFields? : List (String × Json) → Option (List Node)
  | [] => some []
  | (name, value) :: rest =>
    if name = "children" then ofJsonList? value else childrenOfFields? rest

def childrenOfItems? : (place : Nat) → List Json → Option (List Node)
  | _, [] => some []
  | 0, value :: _ => ofJsonList? value
  | place + 1, _ :: rest => childrenOfItems? place rest

def ofJsonList? : Json → Option (List Node)
  | array items => ofItems? items
  | _ => none

def ofItems? : List Json → Option (List Node)
  | [] => some []
  | item :: rest =>
    match ofJson? item, ofItems? rest with
    | some node, some nodes => some (node :: nodes)
    | _, _ => none

end

end Node

/-- The design service's answer to a request for nodes; an unknown id has no node. -/
structure NodesAnswer where
  name : Option String
  nodes : List (String × Option Node)

namespace NodesAnswer

def nodeOfEntry? : Json → Option Node := record ["document"] (required Node.ofJson?)

def ofJson? : Json → Option NodesAnswer :=
  record ["name", "nodes"] do
    let name ← defaulted none (nullable string?)
    let nodes ← defaulted [] (entries? (nullable nodeOfEntry?))
    pure ⟨name, nodes⟩

end NodesAnswer

/-- The design service's answer to a request for images; a node that was not rendered has no
address. -/
structure ImagesAnswer where
  error : Option String
  images : List (String × Option String)

namespace ImagesAnswer

def ofJson? : Json → Option ImagesAnswer :=
  record ["err", "images"] do
    let error ← defaulted none (nullable string?)
    let images ← defaulted [] (entries? (nullable string?))
    pure ⟨error, images⟩

end ImagesAnswer

def valueOf? {α : Type} (key : String) : List (String × α) → Option α
  | [] => none
  | (k, v) :: rest => if k = key then some v else valueOf? key rest

end DesignComponents
