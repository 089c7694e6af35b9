import DesignComponents.Proofs.Json.Forms

/-!
# Designs written and read again

However a node is written, with each record in it as an object or as an array, it is read as
that node.
-/

namespace DesignComponents

open Json Json.Fields

/-! ## The records of a layer -/

namespace Color

def form (c : Color) : RecordForm :=
  [Coding.number.field "r" c.red, Coding.number.field "g" c.green,
    Coding.number.field "b" c.blue, Coding.number.field "a" c.alpha]

theorem ofJson?_of_writes {c : Color} {j : Json} (h : c.form.Writes j) : ofJson? j = some c :=
  Reads.record
    (.bind (reads_required Coding.number "r" c.red) <|
      .bind (reads_required Coding.number "g" c.green) <|
      .bind (reads_required Coding.number "b" c.blue) <|
      .bind (reads_defaulted Coding.number "a" 1 c.alpha) <| reads_pure c) h

def coding : Coding Color :=
  .ofForm form fieldNames ofJson? (fun _ => rfl) (by decide) (by simp [RecordForm.Sound, form])
    ofJson?_of_writes

end Color

namespace Box

def form (b : Box) : RecordForm :=
  [Coding.number.field "x" b.left, Coding.number.field "y" b.top,
    Coding.number.field "width" b.width, Coding.number.field "height" b.height]

theorem ofJson?_of_writes {b : Box} {j : Json} (h : b.form.Writes j) : ofJson? j = some b :=
  Reads.record
    (.bind (reads_defaulted Coding.number "x" 0 b.left) <|
      .bind (reads_defaulted Coding.number "y" 0 b.top) <|
      .bind (reads_defaulted Coding.number "width" 0 b.width) <|
      .bind (reads_defaulted Coding.number "height" 0 b.height) <| reads_pure b) h

def coding : Coding Box :=
  .ofForm form fieldNames ofJson? (fun _ => rfl) (by decide) (by simp [RecordForm.Sound, form])
    ofJson?_of_writes

end Box

namespace TypeStyle

def form (s : TypeStyle) : RecordForm :=
  [Coding.text.optionalField "fontFamily" s.fontFamily,
    Coding.number.optionalField "fontSize" s.fontSize,
    Coding.number.optionalField "fontWeight" s.fontWeight,
    Coding.number.optionalField "lineHeightPx" s.lineHeight]

theorem ofJson?_of_writes {s : TypeStyle} {j : Json} (h : s.form.Writes j) :
    ofJson? j = some s :=
  Reads.record
    (.bind (reads_optional Coding.text "fontFamily" s.fontFamily) <|
      .bind (reads_optional Coding.number "fontSize" s.fontSize) <|
      .bind (reads_optional Coding.number "fontWeight" s.fontWeight) <|
      .bind (reads_optional Coding.number "lineHeightPx" s.lineHeight) <| reads_pure s) h

def coding : Coding TypeStyle :=
  .ofForm form fieldNames ofJson? (fun _ => rfl) (by decide) (by simp [RecordForm.Sound, form])
    ofJson?_of_writes

end TypeStyle

namespace Paint

def form (p : Paint) : RecordForm :=
  [Coding.text.optionalField "type" p.kind, Color.coding.optionalField "color" p.color,
    Coding.number.optionalField "opacity" p.opacity]

theorem ofJson?_of_writes {p : Paint} {j : Json} (h : p.form.Writes j) : ofJson? j = some p :=
  Reads.record
    (.bind (reads_optional Coding.text "type" p.kind) <|
      .bind (reads_optional Color.coding "color" p.color) <|
      .bind (reads_optional Coding.number "opacity" p.opacity) <| reads_pure p) h

def coding : Coding Paint :=
  .ofForm form fieldNames ofJson? (fun _ => rfl) (by decide) (by simp [RecordForm.Sound, form])
    ofJson?_of_writes

end Paint

namespace Offset

def form (o : Offset) : RecordForm :=
  [Coding.number.field "x" o.x, Coding.number.field "y" o.y]

theorem ofJson?_of_writes {o : Offset} {j : Json} (h : o.form.Writes j) : ofJson? j = some o :=
  Reads.record
    (.bind (reads_defaulted Coding.number "x" 0 o.x) <|
      .bind (reads_defaulted Coding.number "y" 0 o.y) <| reads_pure o) h

def coding : Coding Offset :=
  .ofForm form fieldNames ofJson? (fun _ => rfl) (by decide) (by simp [RecordForm.Sound, form])
    ofJson?_of_writes

end Offset

/-! ## Enumerations -/

namespace EffectKind

def coding : Coding EffectKind :=
  .enumeration all word .other fun k => by cases k <;> decide

end EffectKind

namespace LayerKind

def coding : Coding LayerKind :=
  .enumeration all word .other fun k => by cases k <;> decide

end LayerKind

namespace LayoutMode

def coding : Coding LayoutMode :=
  .enumeration all word .other fun m => by cases m <;> decide

end LayoutMode

namespace MainAlignment

def coding : Coding MainAlignment :=
  .enumeration all word .other fun a => by cases a <;> decide

end MainAlignment

namespace CrossAlignment

def coding : Coding CrossAlignment :=
  .enumeration all word .other fun a => by cases a <;> decide

end CrossAlignment

namespace LayoutWrap

def coding : Coding LayoutWrap :=
  .enumeration all word .other fun w => by cases w <;> decide

end LayoutWrap

namespace Effect

def form (e : Effect) : RecordForm :=
  [EffectKind.coding.field "type" e.kind, Coding.truth.field "visible" e.visible,
    Coding.number.optionalField "radius" e.radius, Offset.coding.optionalField "offset" e.offset,
    Color.coding.optionalField "color" e.color]

theorem ofJson?_of_writes {e : Effect} {j : Json} (h : e.form.Writes j) : ofJson? j = some e :=
  Reads.record
    (.bind (reads_required EffectKind.coding "type" e.kind) <|
      .bind (reads_defaulted Coding.truth "visible" false e.visible) <|
      .bind (reads_optional Coding.number "radius" e.radius) <|
      .bind (reads_optional Offset.coding "offset" e.offset) <|
      .bind (reads_optional Color.coding "color" e.color) <| reads_pure e) h

def coding : Coding Effect :=
  .ofForm form fieldNames ofJson? (fun _ => rfl) (by decide) (by simp [RecordForm.Sound, form])
    ofJson?_of_writes

end Effect

/-! ## Layers -/

namespace Layer

def form (l : Layer) : RecordForm :=
  [Coding.text.field "id" l.id, Coding.text.field "name" l.name,
    LayerKind.coding.field "type" l.kind, Coding.truth.field "visible" l.visible,
    Box.coding.optionalField "absoluteBoundingBox" l.box,
    LayoutMode.coding.optionalField "layoutMode" l.layoutMode,
    Coding.number.optionalField "paddingTop" l.paddingTop,
    Coding.number.optionalField "paddingBottom" l.paddingBottom,
    Coding.number.optionalField "paddingLeft" l.paddingLeft,
    Coding.number.optionalField "paddingRight" l.paddingRight,
    Coding.number.optionalField "itemSpacing" l.itemSpacing,
    MainAlignment.coding.optionalField "primaryAxisAlignItems" l.mainAlignment,
    CrossAlignment.coding.optionalField "counterAxisAlignItems" l.crossAlignment,
    LayoutWrap.coding.optionalField "layoutWrap" l.wrap,
    Paint.coding.list.field "fills" l.fills, Paint.coding.list.field "strokes" l.strokes,
    Effect.coding.list.field "effects" l.effects,
    Coding.number.optionalField "cornerRadius" l.cornerRadius,
    Color.coding.optionalField "backgroundColor" l.background,
    Coding.text.optionalField "characters" l.characters,
    TypeStyle.coding.optionalField "style" l.typeStyle]

theorem form_sound (l : Layer) : l.form.Sound := by simp [RecordForm.Sound, form]

/-- The fields that make a layer read the form of each. -/
theorem exists_reads (l : Layer) :
    ∃ fields, ofJson? = record fieldNames fields ∧ Reads fields l.form l := by
  refine ⟨_, rfl, ?_⟩
  exact
    .bind (reads_defaulted Coding.text "id" "" l.id) <|
    .bind (reads_defaulted Coding.text "name" "" l.name) <|
    .bind (reads_defaulted LayerKind.coding "type" .other l.kind) <|
    .bind (reads_defaulted Coding.truth "visible" true l.visible) <|
    .bind (reads_optional Box.coding "absoluteBoundingBox" l.box) <|
    .bind (reads_optional LayoutMode.coding "layoutMode" l.layoutMode) <|
    .bind (reads_optional Coding.number "paddingTop" l.paddingTop) <|
    .bind (reads_optional Coding.number "paddingBottom" l.paddingBottom) <|
    .bind (reads_optional Coding.number "paddingLeft" l.paddingLeft) <|
    .bind (reads_optional Coding.number "paddingRight" l.paddingRight) <|
    .bind (reads_optional Coding.number "itemSpacing" l.itemSpacing) <|
    .bind (reads_optional MainAlignment.coding "primaryAxisAlignItems" l.mainAlignment) <|
    .bind (reads_optional CrossAlignment.coding "counterAxisAlignItems" l.crossAlignment) <|
    .bind (reads_optional LayoutWrap.coding "layoutWrap" l.wrap) <|
    .bind (reads_defaulted Paint.coding.list "fills" [] l.fills) <|
    .bind (reads_defaulted Paint.coding.list "strokes" [] l.strokes) <|
    .bind (reads_defaulted Effect.coding.list "effects" [] l.effects) <|
    .bind (reads_optional Coding.number "cornerRadius" l.cornerRadius) <|
    .bind (reads_optional Color.coding "backgroundColor" l.background) <|
    .bind (reads_optional Coding.text "characters" l.characters) <|
    .bind (reads_optional TypeStyle.coding "style" l.typeStyle) <| reads_pure l

/-- Whatever children are written after its fields, a layer is read from them. -/
theorem ofJson?_of_writes {l : Layer} {children : FieldForm} (hname : children.name = "children")
    {j : Json} (h : (l.form ++ [children]).Writes j) : ofJson? j = some l := by
  obtain ⟨fields, hfields, hreads⟩ := l.exists_reads
  have hnames : fieldNames = (l.form ++ [children]).names := by
    rw [RecordForm.names, List.map_append, List.map_singleton, hname]
    rfl
  rw [hfields, hnames]
  exact hreads.record_append [children] h

end Layer

/-! ## Nodes -/

namespace Node

/-- The children as an array of what may be written for them. -/
def childrenField (children : List Node) (MayBe : List Json → Prop) : FieldForm :=
  ⟨"children", fun j => ∃ items, j = array items ∧ MayBe items, array (toJsonList children)⟩

mutual

/-- A node may be written as any record of its layer's fields and its children, where each child
is written in a way of its own. -/
def WrittenAs : Node → Json → Prop
  | mk layer children =>
    RecordForm.Writes (layer.form ++ [childrenField children (AllWrittenAs children)])

def AllWrittenAs : List Node → List Json → Prop
  | [], items => items = []
  | node :: rest, items => ∃ j tail, items = j :: tail ∧ WrittenAs node j ∧ AllWrittenAs rest tail

end

def form (n : Node) : RecordForm :=
  n.layer.form ++ [childrenField n.children (AllWrittenAs n.children)]

theorem writtenAs_iff {n : Node} {j : Json} : n.WrittenAs j ↔ n.form.Writes j := by
  cases n
  exact Iff.rfl

theorem toJson_eq (n : Node) : n.toJson = object n.form.fields := by
  cases n
  rfl

theorem nodup_names_form (n : Node) : n.form.names.Nodup := by
  change Layer.fieldNames.Nodup
  decide

/-! ### Reading -/

theorem childrenOfFields?_eq (fields : List (String × Json)) :
    childrenOfFields? fields = (field? "children" fields).elim (some []) ofJsonList? := by
  induction fields with
  | nil => rfl
  | cons field fields ih =>
    rw [childrenOfFields?, field?]
    split
    · rfl
    · exact ih

theorem childrenOfItems?_append (values : List Json) (j : Json) :
    childrenOfItems? values.length (values ++ [j]) = ofJsonList? j := by
  induction values with
  | nil => rfl
  | cons value values ih => exact ih

theorem childrenOfFields?_of_filter {fields : List (String × Json)} {j : Json}
    (h : fields.filter (·.1 == "children") = [("children", j)]) :
    childrenOfFields? fields = ofJsonList? j := by
  rw [childrenOfFields?_eq, field?_of_filter h]
  rfl

/-- The children are the last of the items. -/
theorem exists_children_of_fillsIn {n : Node} {items : List Json} (h : n.form.FillsIn items) :
    ∃ children, AllWrittenAs n.children children ∧
      childrenOfItems? childrenPlace items = ofItems? children := by
  have hlast := List.forall₂_drop childrenPlace h
  have hdrop : n.form.drop childrenPlace =
      [childrenField n.children (AllWrittenAs n.children)] := rfl
  rw [hdrop] at hlast
  obtain ⟨_, _, ⟨children, rfl, hchildren⟩, hnil, hvalue⟩ := List.forall₂_cons_left_iff.mp hlast
  rw [List.forall₂_nil_left_iff.mp hnil] at hvalue
  have hplace : (items.take childrenPlace).length = childrenPlace := by
    rw [List.length_take, ← h.length_eq]
    rfl
  have happend := childrenOfItems?_append (items.take childrenPlace) (array children)
  rw [hplace, ← hvalue, List.take_append_drop] at happend
  exact ⟨children, hchildren, happend⟩

/-- A record of a node's fields is read as the node if its children are. -/
theorem ofJson?_of_writes {n : Node} {j : Json} (h : n.form.Writes j)
    (hread : ∀ items, AllWrittenAs n.children items → ofItems? items = some n.children) :
    ofJson? j = some n := by
  have hlayer : Layer.ofJson? j = some n.layer := Layer.ofJson?_of_writes rfl h
  cases h with
  | object fields hfields =>
    obtain ⟨_, hfilter, children, rfl, hchildren⟩ :=
      hfields (childrenField n.children _) (List.mem_append_right _ (List.mem_singleton_self _))
    rw [ofJson?, hlayer, childrenOfFields?_of_filter hfilter, ofJsonList?, hread _ hchildren]
    cases n
    rfl
  | array items hitems =>
    obtain ⟨children, hchildren, hitems⟩ := exists_children_of_fillsIn hitems
    rw [ofJson?, hlayer, hitems, hread _ hchildren]
    cases n
    rfl

mutual

theorem ofJson?_of_writtenAs (n : Node) {j : Json} (h : n.WrittenAs j) : ofJson? j = some n := by
  cases n with
  | mk layer children =>
    exact ofJson?_of_writes (writtenAs_iff.mp h) fun _ hitems =>
      ofItems?_of_allWrittenAs children hitems

theorem ofItems?_of_allWrittenAs (nodes : List Node) {items : List Json}
    (h : AllWrittenAs nodes items) : ofItems? items = some nodes := by
  cases nodes with
  | nil =>
    rw [AllWrittenAs.eq_1] at h
    rw [h, ofItems?]
  | cons node rest =>
    rw [AllWrittenAs.eq_2] at h
    obtain ⟨j, tail, rfl, hj, htail⟩ := h
    rw [ofItems?, ofJson?_of_writtenAs node hj, ofItems?_of_allWrittenAs rest htail]

end

/-! ### Writing -/

theorem writtenAs_of_sound {n : Node} (h : n.form.Sound) : n.WrittenAs n.toJson := by
  rw [writtenAs_iff, toJson_eq]
  exact h.writes_object (nodup_names_form n)

mutual

theorem form_sound (n : Node) : n.form.Sound := by
  cases n with
  | mk layer children =>
    refine layer.form_sound.append (List.forall_mem_singleton.mpr ?_)
    exact ⟨_, rfl, allWrittenAs_toJsonList children⟩

theorem allWrittenAs_toJsonList (nodes : List Node) : AllWrittenAs nodes (toJsonList nodes) := by
  cases nodes with
  | nil => rfl
  | cons node rest =>
    exact ⟨_, _, rfl, writtenAs_of_sound (form_sound node), allWrittenAs_toJsonList rest⟩

end

theorem writtenAs_toJson (n : Node) : n.WrittenAs n.toJson := writtenAs_of_sound (form_sound n)

/-- However a node is written, it is read as that node. It is written in one of these ways, so
that it is read again, and reading what is written for a node that was read gives it again. -/
theorem written_nodes_are_read_again (n : Node) :
    (∀ j, n.WrittenAs j → ofJson? j = some n) ∧
      n.WrittenAs n.toJson ∧ ofJson? n.toJson = some n ∧
      ∀ j, ofJson? j = some n → ofJson? n.toJson = some n := by
  have hwritten : ofJson? n.toJson = some n := ofJson?_of_writtenAs n (writtenAs_toJson n)
  exact ⟨fun j hj => ofJson?_of_writtenAs n hj, writtenAs_toJson n, hwritten, fun _ _ => hwritten⟩

def label : Node :=
  .mk
    { id := "1:2", name := "Label", kind := .text, visible := true, box := none,
      layoutMode := none, paddingTop := none, paddingBottom := none, paddingLeft := none,
      paddingRight := none, itemSpacing := none, mainAlignment := none, crossAlignment := none,
      wrap := none, fills := [⟨some "SOLID", some ⟨1, 0, 0, 1⟩, none⟩], strokes := [],
      effects := [], cornerRadius := none, background := none, characters := some "Name",
      typeStyle := none }
    []

def badge : Node := .mk { label.layer with id := "1:1", name := "Badge", kind := .frame } [label]

/-- The badge as an object with one more field, and the label in it as an array. -/
def badgeJson : Json :=
  object (badge.layer.toFields ++ ("locked", bool true) ::
    [("children", array [array label.form.values])])

theorem badge_writtenAs : badge.WrittenAs badgeJson := by
  have hlabel : label.WrittenAs (array label.form.values) :=
    writtenAs_iff.mpr (.array _ label.form_sound.fillsIn)
  have hchildren : RecordForm.FillsIn
      [childrenField badge.children (AllWrittenAs badge.children)]
      [array [array label.form.values]] := .cons ⟨_, rfl, _, [], rfl, hlabel, rfl⟩ .nil
  have hfields : badge.form.FillsIn
      (badge.layer.form.values ++ [array [array label.form.values]]) :=
    List.rel_append badge.layer.form_sound.fillsIn hchildren
  have hplain : badge.form.Writes (object (badge.layer.toFields ++
      [("children", array [array label.form.values])])) :=
    hfields.writes_object (nodup_names_form badge)
  exact writtenAs_iff.mpr (hplain.with_unknown (by decide) (bool true))

theorem badge_is_read_again : badge.WrittenAs badgeJson ∧ ofJson? badgeJson = some badge :=
  ⟨badge_writtenAs, (written_nodes_are_read_again badge).1 badgeJson badge_writtenAs⟩

end Node

end DesignComponents
