import DesignComponents.Color.Palette
import DesignComponents.Design.Layer
import DesignComponents.Style.ClassList
import DesignComponents.Style.Scale

/-!
# The classes of a layer

Utility classes for what a layer shows, family by family. A layer's classes depend on the layer
alone, never on the layers inside it.
-/

namespace DesignComponents

/-- The value if it is set and neither zero nor undefined. -/
def nonzero (x : Option Double) : Option Double := x.filter fun v => !v.isZero && !v.isNaN

namespace Layer

def suffixed (stem : String) (suffix : Option String) : List String :=
  (suffix.map (stem ++ ·)).toList

/-- Whether the height of a layer matters: only icons and instances have a fixed one. -/
def hasFixedHeight (l : Layer) : Bool := l.kind == .vector || l.kind == .componentInstance

def sizeClasses (l : Layer) : ClassList :=
  let width := suffixed "w-" ((nonzero (l.box.map (·.width))).map spacingSuffix)
  let height := suffixed "h-" ((nonzero (l.box.map (·.height))).map spacingSuffix)
  .ofList (if l.hasFixedHeight then width ++ height else width)

/-- The classes of four suffixes: one class if all agree, two if opposite sides do, and else one
for each side that is set. -/
def paddingTokens : (top bottom left right : Option String) → List String
  | some t, some b, some l, some r =>
    if t = b ∧ t = l ∧ t = r then ["p-" ++ t]
    else if t = b ∧ l = r then ["py-" ++ t, "px-" ++ l]
    else ["pt-" ++ t, "pb-" ++ b, "pl-" ++ l, "pr-" ++ r]
  | t, b, l, r => suffixed "pt-" t ++ suffixed "pb-" b ++ suffixed "pl-" l ++ suffixed "pr-" r

/-- A side set to zero counts as set. -/
def paddingClasses (l : Layer) : ClassList :=
  .ofList (paddingTokens (l.paddingTop.map spacingSuffix) (l.paddingBottom.map spacingSuffix)
    (l.paddingLeft.map spacingSuffix) (l.paddingRight.map spacingSuffix))

def gapClasses (l : Layer) : ClassList :=
  .ofList (suffixed "gap-" ((nonzero l.itemSpacing).map spacingSuffix))

def radiusToken (radius : Double) : String :=
  if radius.same 4 then "rounded" else "rounded-" ++ radiusSuffix radius

def radiusClasses (l : Layer) : ClassList :=
  .ofList ((nonzero l.cornerRadius).map radiusToken).toList

def fontClasses (l : Layer) : ClassList :=
  let size := l.typeStyle.bind (·.fontSize)
  let weight := l.typeStyle.bind (·.fontWeight)
  .ofList (suffixed "text-" ((nonzero size).map fontSizeSuffix) ++
    suffixed "font-" ((nonzero weight).bind fontWeightSuffix?))

def backgroundClasses (l : Layer) : ClassList :=
  .ofList (suffixed "bg-" (l.background.map (·.paletteName 1)))

/-- The border of the first stroke. A vector draws its outline by its fills. -/
def borderClasses (l : Layer) : ClassList :=
  if l.kind == .vector then .empty
  else
    match l.strokes.head? with
    | some ⟨_, some color, opacity⟩ =>
      .ofList ["border", "border-" ++ color.paletteName (opacity.getD 1)]
    | _ => .empty

def shadowToken (extent : Double) : String :=
  if extent.le 1 then "shadow-sm"
  else if extent.le 2 then "shadow"
  else if extent.le 4 then "shadow-md"
  else if extent.le 6 then "shadow-lg"
  else if extent.le 8 then "shadow-xl"
  else "shadow-2xl"

def extent (e : Effect) : Double :=
  let offset := e.offset.getD ⟨0, 0⟩
  (e.radius.getD 0).larger (offset.x.abs.larger offset.y.abs)

def shadowTokens (e : Effect) : List String :=
  if e.kind == .dropShadow && e.visible then
    shadowToken (extent e) :: suffixed "shadow-" (e.color.map (·.paletteName 1))
  else []

def shadowClasses (l : Layer) : ClassList := .ofList (l.effects.flatMap shadowTokens)

def directionTokens : Option LayoutMode → List String
  | some .horizontal => ["flex", "flex-row"]
  | some .vertical => ["flex", "flex-col"]
  | _ => []

def mainTokens : Option MainAlignment → List String
  | some .center => ["justify-center"]
  | some .start => ["justify-start"]
  | some .finish => ["justify-end"]
  | some .spaceBetween => ["justify-between"]
  | some .spaceAround => ["justify-around"]
  | some .spaceEvenly => ["justify-evenly"]
  | _ => []

def crossTokens : Option CrossAlignment → List String
  | some .center => ["items-center"]
  | some .start => ["items-start"]
  | some .finish => ["items-end"]
  | _ => []

def wrapTokens : Option LayoutWrap → List String
  | some .wrap => ["flex-wrap"]
  | _ => []

def layoutClasses (l : Layer) : ClassList :=
  .ofList (directionTokens l.layoutMode ++ mainTokens l.mainAlignment ++
    crossTokens l.crossAlignment ++ wrapTokens l.wrap)

def textColorClasses (l : Layer) : ClassList :=
  if l.kind == .text then
    .ofList (suffixed "text-" ((l.fills.head?.bind (·.color)).map (·.paletteName 1)))
  else .empty

def families : List (Layer → ClassList) :=
  [sizeClasses, paddingClasses, fontClasses, backgroundClasses, borderClasses, radiusClasses,
    shadowClasses, layoutClasses, textColorClasses, gapClasses]

def classes (l : Layer) : ClassList :=
  families.foldl (fun done family => done ++ family l) .empty

end Layer

end DesignComponents
