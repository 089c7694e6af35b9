import DesignComponents.Proofs.Conversion.FailedImages
import DesignComponents.Proofs.Design.Places

/-!
# Nodes that are not read

An image, a text, a reference to a component and a layer that becomes nothing do not look at the
nodes inside them, and a label or an input looks at its first text only. Whatever else is put
inside such a node, wherever a rendering comes to it, the same is shown, and the same is asked for
in the same order.
-/

namespace DesignComponents

/-! ## What is read of the nodes inside -/

namespace Layer

/-- The layer with nothing but what styling reads: without what tells it from other layers, its
characters, whether it is visible and where its corner lies. -/
def styleOnly (l : Layer) : Layer :=
  { l with
    id := ""
    name := ""
    visible := true
    box := l.box.map fun b => { b with left := 0, top := 0 }
    characters := none }

theorem classes_styleOnly (l : Layer) : l.styleOnly.classes = l.classes := by
  obtain ⟨id, name, kind, visible, _ | box⟩ := l
  · rfl
  · rfl

theorem textColorClasses_styleOnly (l : Layer) :
    l.styleOnly.textColorClasses = l.textColorClasses := rfl

/-- Both texts have the same name, the same characters and the same style. -/
structure SameText (text text' : Layer) : Prop where
  name : text'.name = text.name
  characters : text'.characters = text.characters
  style : text'.styleOnly = text.styleOnly

namespace SameText

variable {text text' : Layer}

theorem classes (h : text.SameText text') : text'.classes = text.classes := by
  rw [← classes_styleOnly text', h.style, classes_styleOnly]

theorem textColorClasses (h : text.SameText text') :
    text'.textColorClasses = text.textColorClasses := by
  rw [← textColorClasses_styleOnly text', h.style, textColorClasses_styleOnly]

end SameText

end Layer

/-- To a layer of the role both lists of nodes inside it look the same. -/
def Role.ReadsAlike (role : Role) (children children' : List Node) : Prop :=
  match role with
  | image | imageContainer | text | reference _ | empty => True
  | label | input =>
    Option.Rel Layer.SameText (Walk.firstText? children) (Walk.firstText? children')
  | table | headingCell | dataCell | container => children' = children

namespace Walk

theorem labelOf_congr {text? text?' : Option Layer} (h : Option.Rel Layer.SameText text? text?') :
    labelOf text?' = labelOf text? := by
  cases h with
  | none => rfl
  | some h => rw [labelOf, labelOf, h.name, h.classes]

theorem inputOf_congr (layer : Layer) {text? text?' : Option Layer}
    (h : Option.Rel Layer.SameText text? text?') :
    inputOf layer text?' = inputOf layer text? := by
  cases h with
  | none => rfl
  | some h => rw [inputOf, inputOf, textOf, textOf, h.characters, h.textColorClasses]

end Walk

/-! ## Ways to the nodes that a rendering comes to -/

namespace Node

/-- A rendering of the first node comes to the second by these numbers of children. A table is
passed together with one of its columns. -/
inductive ComesTo (reference? : Layer → Option String) : Node → List Nat → Node → Prop
  | here (n : Node) : ComesTo reference? n [] n
  | inside {layer : Layer} {children : List Node} {i : Nat} {c v : Node} {path : List Nat} :
      layer.roleWith reference? ∈ [.headingCell, .dataCell, .container] → children[i]? = some c →
        ComesTo reference? c path v → ComesTo reference? (mk layer children) (i :: path) v
  | across {layer : Layer} {children : List Node} {i j : Nat} {column c v : Node}
      {path : List Nat} :
      layer.roleWith reference? = .table → children[i]? = some column → column.visible = true →
        column.children[j]? = some c → j < 2 →
        ComesTo reference? c path v → ComesTo reference? (mk layer children) (i :: j :: path) v

variable {reference? : Layer → Option String}

theorem exists_comesTo_of_visits {n v : Node} (h : Visits reference? n v) :
    ∃ path, n.ComesTo reference? path v := by
  induction h using Relation.ReflTransGen.head_induction_on with
  | refl => exact ⟨[], .here v⟩
  | @head n c hc _ ih =>
    obtain ⟨path, hpath⟩ := ih
    obtain ⟨layer, children⟩ := n
    rw [entered] at hc
    cases hrole : layer.roleWith reference? with
    | table =>
      rw [hrole] at hc
      rcases List.mem_append.mp hc with hc | hc
      · obtain ⟨i, column, hi, hvisible, hj⟩ := mem_acrossColumns_iff.mp hc
        exact ⟨i :: 0 :: path, .across hrole hi hvisible hj (by decide) hpath⟩
      · obtain ⟨i, column, hi, hvisible, hj⟩ := mem_acrossColumns_iff.mp hc
        exact ⟨i :: 1 :: path, .across hrole hi hvisible hj (by decide) hpath⟩
    | headingCell | dataCell | container =>
      rw [hrole] at hc
      obtain ⟨i, hi⟩ := List.mem_iff_getElem?.mp hc
      exact ⟨i :: path, .inside (by simp [hrole]) hi hpath⟩
    | image | imageContainer | text | label | input | reference _ | empty =>
      rw [hrole] at hc
      cases hc

theorem ComesTo.visits {n v : Node} {path : List Nat} (h : n.ComesTo reference? path v) :
    Visits reference? n v := by
  induction h with
  | here => exact .refl
  | @inside layer children i c v path hrole hi _ ih =>
    refine .head ?_ ih
    rw [entered]
    simp only [List.mem_cons, List.not_mem_nil, or_false] at hrole
    rcases hrole with hrole | hrole | hrole <;> rw [hrole] <;> exact List.mem_of_getElem? hi
  | @across layer children i j column c v path hrole hi hvisible hc hj _ ih =>
    have hmem : c ∈ acrossColumns j children :=
      mem_acrossColumns_iff.mpr ⟨i, column, hi, hvisible, hc⟩
    have hrow : j = 0 ∨ j = 1 := by omega
    refine .head ?_ ih
    rw [entered, hrole]
    rcases hrow with rfl | rfl
    · exact List.mem_append_left _ hmem
    · exact List.mem_append_right _ hmem

/-- To put the root's children in reading order changes the way to a node, but not what lies
inside it, unless it is the root. -/
theorem ComesTo.inReadingOrder {root v : Node} {path : List Nat}
    (h : root.ComesTo reference? path v) :
    ∃ path', root.inReadingOrder.ComesTo reference? path' (mk v.layer (seenAt path v.children)) ∧
      ∀ children', (root.withChildrenAt children' path).inReadingOrder =
        root.inReadingOrder.withChildrenAt (seenAt path children') path' := by
  cases h with
  | here =>
    obtain ⟨layer, children⟩ := root
    exact ⟨[], .here _, fun _ => rfl⟩
  | @inside layer children i c _ path hrole hi hpath =>
    obtain ⟨k, hk, hchanged⟩ := exists_modify_inReadingOrder layer hi
    obtain ⟨vlayer, vchildren⟩ := v
    exact ⟨k :: path, .inside hrole hk hpath, fun children' => hchanged children' path⟩
  | @across layer children i j column c _ path hrole hi hvisible hc hj hpath =>
    obtain ⟨k, hk, hchanged⟩ := exists_modify_inReadingOrder layer hi
    obtain ⟨vlayer, vchildren⟩ := v
    exact ⟨k :: j :: path, .across hrole hk hvisible hc hj hpath,
      fun children' => hchanged children' (j :: path)⟩

end Node

/-! ## Programs that do the same -/

namespace Walk

variable (w : Walk) {answers : List (String × Bool)} {α β : Type}

/-- The answers that a program was given stay. -/
def Grows (x : StateM Ledger α) : Prop := ∀ l, l.answers <+: (x l).2.answers

theorem grows_pure (a : α) : Grows (pure a : StateM Ledger α) := fun _ => List.prefix_refl _

theorem Grows.bind {x : StateM Ledger α} {f : α → StateM Ledger β} (hx : Grows x)
    (hf : ∀ a, Grows (f a)) : Grows (x >>= f) :=
  fun l => (hx l).trans (hf _ _)

theorem grows_render (n : Node) : Grows (w.render n) := fun l => (w.foresees_render [] n l).1

theorem grows_renderAll (ns : List Node) : Grows (w.renderAll ns) := by
  induction ns with
  | nil =>
    rw [renderAll_nil]
    exact grows_pure _
  | cons n ns ih =>
    rw [renderAll_cons]
    exact (w.grows_render n).bind fun _ => ih.bind fun _ => grows_pure _

/-- As long as no answer is given but these, the second program does what the first one does. -/
def SameWithin (answers : List (String × Bool)) (x x' : StateM Ledger α) : Prop :=
  ∀ l, (x l).2.answers <+: answers → x' l = x l

namespace SameWithin

theorem refl (x : StateM Ledger α) : SameWithin answers x x := fun _ _ => rfl

theorem bind {x x' : StateM Ledger α} {f f' : α → StateM Ledger β} (hx : SameWithin answers x x')
    (hgrows : ∀ a, Grows (f a))
    (hf : ∀ l, (x l).2.answers <+: answers → SameWithin answers (f (x l).1) (f' (x l).1)) :
    SameWithin answers (x >>= f) (x' >>= f') := by
  intro l h
  have hfirst : (x l).2.answers <+: answers := (hgrows (x l).1 (x l).2).trans h
  change f' (x' l).1 (x' l).2 = _
  rw [hx l hfirst]
  exact hf l hfirst (x l).2 h

theorem bind_pure {x x' : StateM Ledger α} (hx : SameWithin answers x x') (f : α → β) :
    SameWithin answers (x >>= fun a => pure (f a)) (x' >>= fun a => pure (f a)) :=
  hx.bind (fun _ => grows_pure _) fun _ _ => .refl _

theorem renderAll {w : Walk} {c c' : Node} (h : SameWithin answers (w.render c) (w.render c'))
    (before after : List Node) :
    SameWithin answers (w.renderAll (before ++ c :: after))
      (w.renderAll (before ++ c' :: after)) := by
  induction before with
  | nil =>
    rw [List.nil_append, List.nil_append, renderAll_cons, renderAll_cons]
    exact h.bind (fun _ => (w.grows_renderAll after).bind fun _ => grows_pure _)
      fun _ _ => .refl _
  | cons n before ih =>
    rw [List.cons_append, List.cons_append, renderAll_cons, renderAll_cons]
    exact (SameWithin.refl (w.render n)).bind
      (fun _ => (w.grows_renderAll _).bind fun _ => grows_pure _) fun _ _ => ih.bind_pure _

end SameWithin

/-! ## Renderings that do the same -/

/-- What is left to do for a node once the role of its layer is known. -/
def renderAs (layer : Layer) (children : List Node) : Role → StateM Ledger (Option Element)
  | .empty => pure none
  | .reference name => pure (some (.reference name))
  | .image => do
    let address ← w.awaitImage layer
    pure (address.map (ImageForm.plain.element · layer.classes))
  | .imageContainer => do
    let address ← w.awaitImage layer
    pure (address.map (ImageForm.contained.element · layer.classes))
  | .text => pure (some (.text (textOf layer) layer.classes))
  | .label => pure (labelOf (firstText? children))
  | .input => pure (some (inputOf layer (firstText? children)))
  | .table => do
    let headElements ← w.renderAll (Node.heads children)
    let cellElements ← w.renderAll (Node.cells children)
    pure (some (.table headElements cellElements))
  | .headingCell => do
    let content ← w.renderAll children
    pure (some (.headingCell content layer.classes))
  | .dataCell => do
    let content ← w.renderAll children
    pure (some (.dataCell content layer.classes))
  | .container => do
    let content ← w.renderAll children
    pure (some (.container content layer.classes))

theorem render_eq_bind (layer : Layer) (children : List Node) :
    w.render (.mk layer children) =
      layer.classify (Ledger.componentFor w.reuse) >>= w.renderAs layer children := by
  rw [render_mk]
  refine bind_congr fun role => ?_
  cases role with
  | _ => rfl

theorem grows_renderAs (layer : Layer) (children : List Node) (role : Role) :
    Grows (w.renderAs layer children role) := by
  have hcontent := w.grows_renderAll children
  have himage : Grows (w.awaitImage layer) := fun _ => List.prefix_refl _
  cases role with
  | image | imageContainer => exact himage.bind fun _ => grows_pure _
  | table =>
    exact (w.grows_renderAll _).bind fun _ => (w.grows_renderAll _).bind fun _ => grows_pure _
  | headingCell | dataCell | container => exact hcontent.bind fun _ => grows_pure _
  | text | label | input | reference _ | empty => exact grows_pure _

theorem role_of_classify (layer : Layer) (l : Ledger)
    (h : (Layer.classify (m := StateM Ledger) (Ledger.componentFor w.reuse) layer l).2.answers <+:
      answers) :
    (Layer.classify (m := StateM Ledger) (Ledger.componentFor w.reuse) layer l).1 =
      layer.roleWith (Ledger.reference? w.reuse answers) := by
  have hcomponent : ∀ layer, Foresees answers _ (Ledger.componentFor w.reuse layer)
      (Ledger.reference? w.reuse answers layer) := by
    intro layer l
    obtain ⟨hgrows, hvalue, _⟩ := Ledger.componentFor_spec w.reuse layer l
    exact ⟨hgrows, hvalue answers⟩
  exact (((simulation_foresees answers).classify hcomponent layer l).2 h).symm

/-- Two nodes with the same layer render the same if they do in the role that the layer has. -/
theorem sameWithin_render {layer : Layer} {children children' : List Node}
    (h : SameWithin answers
      (w.renderAs layer children (layer.roleWith (Ledger.reference? w.reuse answers)))
      (w.renderAs layer children' (layer.roleWith (Ledger.reference? w.reuse answers)))) :
    SameWithin answers (w.render (.mk layer children)) (w.render (.mk layer children')) := by
  rw [render_eq_bind, render_eq_bind]
  refine (SameWithin.refl _).bind (w.grows_renderAs layer children) ?_
  intro l hl
  rw [w.role_of_classify layer l hl]
  exact h

theorem renderAs_congr (layer : Layer) {children children' : List Node} {role : Role}
    (h : role.ReadsAlike children children') :
    w.renderAs layer children' role = w.renderAs layer children role := by
  cases role with
  | image | imageContainer | text | reference _ | empty => rfl
  | label => rw [renderAs, renderAs, labelOf_congr h]
  | input => rw [renderAs, renderAs, inputOf_congr layer h]
  | table | headingCell | dataCell | container =>
    have hsame : children' = children := h
    rw [hsame]

/-- Wherever a rendering comes to a node to which other children look the same, it does with them
what it does without. -/
theorem sameWithin_withChildrenAt {n v : Node} {path : List Nat}
    (hcomes : n.ComesTo (Ledger.reference? w.reuse answers) path v) {children' : List Node}
    (h : (v.layer.roleWith (Ledger.reference? w.reuse answers)).ReadsAlike v.children children') :
    SameWithin answers (w.render n) (w.render (n.withChildrenAt children' path)) := by
  induction hcomes with
  | here v =>
    obtain ⟨layer, children⟩ := v
    rw [Node.layer_mk, Node.children_mk] at h
    apply w.sameWithin_render
    rw [w.renderAs_congr layer h]
    exact .refl _
  | @inside layer children i c v path hrole hc _ ih =>
    obtain ⟨before, after, rfl, hmodify⟩ := exists_split_of_getElem? hc
    have hcontent := (ih h).renderAll before after
    rw [Node.withChildrenAt, hmodify]
    apply w.sameWithin_render
    simp only [List.mem_cons, List.not_mem_nil, or_false] at hrole
    rcases hrole with hrole | hrole | hrole <;> rw [hrole] <;> exact hcontent.bind_pure _
  | @across layer children i j column c v path hrole hcolumn hvisible hc hj _ ih =>
    obtain ⟨⟨before, after, hrow, hrow'⟩, hother⟩ :=
      Node.exists_split_acrossColumns hcolumn hvisible hc children' path
    have hcontent := (ih h).renderAll before after
    rw [← hrow, ← hrow'] at hcontent
    have hplace : j = 0 ∨ j = 1 := by omega
    rw [Node.withChildrenAt]
    apply w.sameWithin_render
    rw [hrole, renderAs, renderAs]
    rcases hplace with rfl | rfl
    · rw [Node.cells, Node.cells, hother 1 (by decide)]
      exact hcontent.bind (fun _ => (w.grows_renderAll _).bind fun _ => grows_pure _)
        fun _ _ => .refl _
    · rw [Node.heads, Node.heads, hother 0 (by decide)]
      exact (SameWithin.refl _).bind (fun _ => (w.grows_renderAll _).bind fun _ => grows_pure _)
        fun _ _ => hcontent.bind_pure _

end Walk

/-! ## Conversions -/

namespace Conversion

variable (source : Source) (o : Options) (catalogue : Catalogue) (fileKey : String) (root : Node)

/-- What stands for a layer by the answers that a conversion was given. -/
def answered : Layer → Option String :=
  let w := walk source o catalogue fileKey root
  Ledger.reference? w.reuse (w.start root.inReadingOrder .empty).2.answers

/-- A conversion comes to nodes by numbers of children, and if those inside one of them are
replaced by others that look the same to its role, the result is the same and so are all
questions, in the same order. To images, texts, references and what becomes nothing all nodes
inside look the same, and to labels and inputs those with the same first text or with none. -/
theorem unread_children_do_not_matter :
    (∀ v, Node.Visits (answered source o catalogue fileKey root) root v ↔
      ∃ path, root.ComesTo (answered source o catalogue fileKey root) path v) ∧
      ∀ path v children', root.ComesTo (answered source o catalogue fileKey root) path v →
        (v.layer.roleWith (answered source o catalogue fileKey root)).ReadsAlike
          (Node.seenAt path v.children) (Node.seenAt path children') →
        ofRoot source o catalogue fileKey (root.withChildrenAt children' path) =
          ofRoot source o catalogue fileKey root := by
  refine ⟨fun v => ⟨Node.exists_comesTo_of_visits, fun ⟨_, h⟩ => h.visits⟩, ?_⟩
  intro path v children' hcomes hread
  let w := walk source o catalogue fileKey root
  obtain ⟨path', hcomes', hchanged⟩ := hcomes.inReadingOrder
  have hanswered : answered source o catalogue fileKey root =
      Ledger.reference? w.reuse (w.render root.inReadingOrder .empty).2.answers := by
    rw [← w.finish_start]
    rfl
  have hwalk : walk source o catalogue fileKey (root.withChildrenAt children' path) = w := by
    rw [walk, Node.layer_withChildrenAt]
    rfl
  rw [hanswered] at hcomes' hread
  have hsame := w.sameWithin_withChildrenAt hcomes' hread .empty (List.prefix_refl _)
  rw [ofRoot_eq, ofRoot_eq, hwalk, hchanged, hsame, ofResult, ofResult, Node.layer_withChildrenAt]

/-! ## A form whose label is taken apart -/

def nameLabel : Node :=
  .mk (bareLayer "1:4" "label-name" .frame true) [.mk (bareLayer "1:5" "Name" .text true) []]

def form : Node :=
  .mk (bareLayer "1:1" "Form" .frame true)
    [.mk (bareLayer "1:2" "Card" .frame true) [],
      .mk (bareLayer "1:3" "Section" .frame true) [nameLabel]]

def otherContent : List Node :=
  [.mk (bareLayer "2:1" "Icon" .vector true) [],
    .mk (bareLayer "2:2" "Name" .text false) [.mk (bareLayer "2:3" "Card" .frame true) []],
    .mk (bareLayer "2:4" "Street" .text true) []]

theorem inReadingOrder_form : form.inReadingOrder = form := by
  rw [form, Node.inReadingOrder, List.mergeSort_of_pairwise]
  decide +kernel

/-- The label is told by its first text only, and what else is put inside it is not shown. -/
theorem label_with_other_content :
    let o := Component.plainReact
    let catalogue := Shelf.store.catalogue ["Card.jsx"] o
    let stands? := answered (sourceOf form) o catalogue "FILE" form
    form.ComesTo stands? [1, 0] nameLabel ∧
      (nameLabel.layer.roleWith stands?).ReadsAlike nameLabel.children otherContent ∧
      ofRoot (sourceOf form) o catalogue "FILE" (form.withChildrenAt otherContent [1, 0]) =
        ofRoot (sourceOf form) o catalogue "FILE" form ∧
      (ofRoot (sourceOf form) o catalogue "FILE" form).1.markup .react =
        "<div className=\"\"><Card /><div className=\"\">" ++
          "<label className=\"\">Name</label></div></div>" := by
  intro o catalogue stands?
  have hanswers : ((walk (sourceOf form) o catalogue "FILE" form).start form .empty).2.answers =
      [("Card", true), ("Section", false), ("Labelname", false)] := by decide +kernel
  have hstands : stands? = Ledger.reference? (o.reuseFor "Form" catalogue)
      [("Card", true), ("Section", false), ("Labelname", false)] := by
    have hname : componentName form.layer.displayName = "Form" := by decide +kernel
    rw [← hanswers]
    simp only [stands?, answered, inReadingOrder_form, walk, hname]
  have hcomes : form.ComesTo stands? [1, 0] nameLabel := by
    rw [hstands]
    exact .inside (by decide +kernel) rfl (.inside (by decide +kernel) rfl (.here nameLabel))
  have hrole : nameLabel.layer.roleWith stands? = .label := by
    rw [hstands]
    decide +kernel
  have hread : (nameLabel.layer.roleWith stands?).ReadsAlike nameLabel.children otherContent := by
    rw [hrole]
    exact .some ⟨rfl, rfl, rfl⟩
  obtain ⟨_, hsame⟩ := unread_children_do_not_matter (sourceOf form) o catalogue "FILE" form
  refine ⟨hcomes, hread, hsame [1, 0] nameLabel otherContent hcomes hread, ?_⟩
  rw [ofRoot, inReadingOrder_form]
  decide +kernel

end Conversion

end DesignComponents
