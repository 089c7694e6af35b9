import DesignComponents.Proofs.Conversion.References
import DesignComponents.Proofs.Design.ReadingOrder

/-!
# Hidden nodes

A hidden node shows nothing, so that inside containers and cells it might as well not be there.
Labels, inputs and tables, however, read the nodes inside them without asking whether these are
visible: a hidden text can be the text of a label, and a hidden node can take the place of a
column's head or cell. Exactly where this makes a difference, a design and the same design
without its hidden nodes are converted differently.
-/

namespace DesignComponents

namespace Node

mutual

/-- The node without the hidden nodes below it, at every depth. -/
def pruned : Node → Node
  | mk layer children => mk layer (prunedAll children)

def prunedAll : List Node → List Node
  | [] => []
  | n :: rest => if n.visible then pruned n :: prunedAll rest else prunedAll rest

end

@[simp] theorem layer_pruned (n : Node) : n.pruned.layer = n.layer := by
  cases n
  rfl

theorem prunedAll_eq (ns : List Node) : prunedAll ns = (ns.filter (·.visible)).map pruned := by
  induction ns with
  | nil => rfl
  | cons n ns ih =>
    rw [prunedAll, ih]
    cases hvisible : n.visible with
    | true =>
      rw [List.filter_cons_of_pos hvisible]
      rfl
    | false =>
      rw [List.filter_cons_of_neg (ne_true_of_eq_false hvisible)]
      rfl

/-- To leave out hidden nodes and to put the others in reading order can be done in either
order. -/
theorem inReadingOrder_pruned {root : Node} (h : AllPlaced root.children) :
    root.pruned.inReadingOrder = root.inReadingOrder.pruned := by
  obtain ⟨layer, children⟩ := root
  have hchildren : AllPlaced children := h
  have hfiltered : AllPlaced (children.filter (·.visible)) :=
    fun n hn => hchildren n (List.mem_filter.mp hn).1
  have hmap : ((children.filter (·.visible)).mergeSort readsBefore).map pruned =
      ((children.filter (·.visible)).map pruned).mergeSort readsBefore := by
    refine List.map_mergeSort fun a _ b _ => ?_
    rw [readsBefore, readsBefore, layer_pruned, layer_pruned]
  have hfilter : (children.mergeSort readsBefore).filter (·.visible) =
      (children.filter (·.visible)).mergeSort readsBefore := by
    rw [mergeSort_eq_placed hchildren, mergeSort_eq_placed hfiltered]
    exact filter_mergeSort placedBefore_trans placedBefore_total _ children
  rw [pruned, inReadingOrder, inReadingOrder, pruned, prunedAll_eq, prunedAll_eq, hfilter, hmap]

def rowOf (reference? address? : Layer → Option String) (i : Nat) (columns : List Node) :
    List Element := (acrossColumns i columns).filterMap (shown reference? address?)

variable (reference? address? : Layer → Option String)

mutual

/-- What is read of hidden nodes makes no difference: wherever a rendering comes, a label and an
input say the same, and a table has the same rows, with the hidden nodes and without. -/
def Candid : Node → Prop
  | mk layer children =>
    match layer.roleWith reference? with
    | .label =>
      Walk.labelOf (Walk.firstText? (children.filter (·.visible))) =
        Walk.labelOf (Walk.firstText? children)
    | .input =>
      Walk.inputOf layer (Walk.firstText? (children.filter (·.visible))) =
        Walk.inputOf layer (Walk.firstText? children)
    | .table =>
      rowOf reference? address? 0 (prunedAll children) = rowOf reference? address? 0 children ∧
        rowOf reference? address? 1 (prunedAll children) = rowOf reference? address? 1 children
    | .headingCell | .dataCell | .container => CandidAll children
    | .image | .imageContainer | .text | .reference _ | .empty => True

/-- Of the nodes in a container the visible ones are looked into. -/
def CandidAll : List Node → Prop
  | [] => True
  | n :: rest => (n.visible = true → Candid n) ∧ CandidAll rest

end

theorem candidAll_iff (ns : List Node) :
    CandidAll reference? address? ns ↔
      ∀ n ∈ ns, n.visible = true → Candid reference? address? n := by
  induction ns with
  | nil => exact ⟨fun _ => List.forall_mem_nil _, fun _ => trivial⟩
  | cons n ns ih => rw [CandidAll, ih, List.forall_mem_cons]

/-! ## What hidden nodes do to the element -/

theorem shown_of_hidden {n : Node} (h : n.visible = false) :
    n.shown reference? address? = none := by
  obtain ⟨layer, children⟩ := n
  have hrole : layer.roleWith reference? = .empty := by
    rw [Layer.roleWith_eq]
    exact if_neg (ne_true_of_eq_false h)
  rw [shown_mk, hrole]

theorem firstText?_prunedAll (ns : List Node) :
    Walk.firstText? (prunedAll ns) = Walk.firstText? (ns.filter (·.visible)) := by
  rw [prunedAll_eq, Walk.firstText?, Walk.firstText?, List.find?_map]
  have hkind : ((fun n : Node => n.layer.kind == .text) ∘ pruned) =
      fun n => n.layer.kind == .text := by
    funext n
    rw [Function.comp, layer_pruned]
  rw [hkind, Option.map_map]
  refine congrArg (Option.map · _) ?_
  funext n
  exact layer_pruned n

theorem shown_pruned_of_none {n : Node} (h : n.shown reference? address? = none) :
    n.pruned.shown reference? address? = none := by
  obtain ⟨layer, children⟩ := n
  rw [pruned, shown_mk]
  rw [shown_mk] at h
  cases hrole : layer.roleWith reference? with
  | label =>
    rw [hrole] at h
    have hnone : Walk.firstText? children = none := by
      cases htext : Walk.firstText? children with
      | none => rfl
      | some text => exact absurd h (by simp [htext, Walk.labelOf])
    have hfiltered : Walk.firstText? (children.filter (·.visible)) = none := by
      rw [Walk.firstText?, Option.map_eq_none_iff, List.find?_eq_none] at hnone ⊢
      exact fun c hc => hnone c (List.mem_filter.mp hc).1
    dsimp only
    rw [firstText?_prunedAll, hfiltered]
    rfl
  | image | imageContainer =>
    rw [hrole] at h
    exact h
  | empty => rfl
  | text | input | reference _ | table | headingCell | dataCell | container =>
    rw [hrole] at h
    exact absurd h (Option.some_ne_none _)

end Node

section Lists

variable {α β : Type} {f g : α → Option β}

theorem length_filterMap_le {xs : List α} (h : ∀ a ∈ xs, f a = none → g a = none) :
    (xs.filterMap g).length ≤ (xs.filterMap f).length := by
  induction xs with
  | nil => exact Nat.le_refl _
  | cons a xs ih =>
    obtain ⟨ha, hxs⟩ := List.forall_mem_cons.mp h
    have hrest := ih hxs
    cases hf : f a with
    | none =>
      rw [List.filterMap_cons_none hf, List.filterMap_cons_none (ha hf)]
      exact hrest
    | some b =>
      rw [List.filterMap_cons_some hf, List.length_cons]
      cases hg : g a with
      | none =>
        rw [List.filterMap_cons_none hg]
        omega
      | some b' =>
        rw [List.filterMap_cons_some hg, List.length_cons]
        omega

/-- If `g` has nothing where `f` has nothing, their lists agree only if they agree throughout:
what `g` lacks in one place cannot be made up for in another. -/
theorem filterMap_eq_iff {xs : List α} (h : ∀ a ∈ xs, f a = none → g a = none) :
    xs.filterMap g = xs.filterMap f ↔ ∀ a ∈ xs, g a = f a := by
  induction xs with
  | nil => exact ⟨fun _ => List.forall_mem_nil _, fun _ => rfl⟩
  | cons a xs ih =>
    obtain ⟨ha, hxs⟩ := List.forall_mem_cons.mp h
    rw [List.forall_mem_cons, ← ih hxs]
    cases hf : f a with
    | none =>
      rw [List.filterMap_cons_none hf, List.filterMap_cons_none (ha hf), ha hf]
      exact (and_iff_right rfl).symm
    | some b =>
      rw [List.filterMap_cons_some hf]
      cases hg : g a with
      | none =>
        -- The list of `g` is one short here and cannot catch up.
        have hle := length_filterMap_le hxs
        rw [List.filterMap_cons_none hg]
        constructor
        · intro heq
          rw [heq, List.length_cons] at hle
          omega
        · rintro ⟨hsome, _⟩
          cases hsome
      | some b' =>
        rw [List.filterMap_cons_some hg, List.cons_eq_cons, Option.some_inj]

end Lists

namespace Node

variable (reference? address? : Layer → Option String)

theorem filterMap_shown_visible (ns : List Node) :
    (ns.filter (·.visible)).filterMap (shown reference? address?) =
      ns.filterMap (shown reference? address?) := by
  rw [List.filterMap_filter]
  refine congrArg (ns.filterMap ·) (funext fun n => ?_)
  cases hvisible : n.visible with
  | true => exact if_pos rfl
  | false => rw [shown_of_hidden reference? address? hvisible, ite_self]

/-- A container shows the same without its hidden nodes if and only if all its visible nodes
do. -/
theorem filterMap_prunedAll_iff (ns : List Node) :
    (prunedAll ns).filterMap (shown reference? address?) =
        ns.filterMap (shown reference? address?) ↔
      ∀ n ∈ ns, n.visible = true →
        n.pruned.shown reference? address? = n.shown reference? address? := by
  rw [prunedAll_eq, List.filterMap_map, ← filterMap_shown_visible]
  refine (filterMap_eq_iff fun n _ => shown_pruned_of_none reference? address?).trans ?_
  simp only [List.mem_filter, and_imp]

/-- A node shows the same without its hidden nodes if and only if it is candid. -/
theorem shown_pruned_iff (n : Node) :
    n.pruned.shown reference? address? = n.shown reference? address? ↔
      n.Candid reference? address? := by
  induction n using Node.induction with
  | step layer children hchildren _ _ =>
    have hcontent : (prunedAll children).filterMap (shown reference? address?) =
        children.filterMap (shown reference? address?) ↔
          CandidAll reference? address? children := by
      rw [filterMap_prunedAll_iff, candidAll_iff]
      refine forall_congr' fun c => forall_congr' fun hc => ?_
      rw [hchildren c hc]
    rw [pruned, shown_mk, shown_mk, Candid]
    cases layer.roleWith reference? with
    | label =>
      dsimp only
      rw [firstText?_prunedAll]
    | input =>
      dsimp only
      rw [firstText?_prunedAll, Option.some_inj]
    | table =>
      dsimp only
      rw [Option.some_inj, Element.table.injEq]
      exact Iff.rfl
    | headingCell =>
      dsimp only
      rw [Option.some_inj, Element.headingCell.injEq, hcontent]
      exact and_iff_left rfl
    | dataCell =>
      dsimp only
      rw [Option.some_inj, Element.dataCell.injEq, hcontent]
      exact and_iff_left rfl
    | container =>
      dsimp only
      rw [Option.some_inj, Element.container.injEq, hcontent]
      exact and_iff_left rfl
    | image | imageContainer | text | reference _ | empty => exact iff_of_true rfl trivial

end Node

namespace Conversion

variable {σ : Type} (store : Store σ) (s : σ) (source : Source) (o : Options) (fileKey : String)

def walkWith (root : Node) : Walk := walk source o (store.catalogue s o) fileKey root

def shownWith (root : Node) : Option Element :=
  root.inReadingOrder.shown (Reuse.standing? (walkWith store s source o fileKey root).reuse)
    (walkWith store s source o fileKey root).addressOf

/-- A store holds the same components during the whole of a conversion. -/
theorem element_ofRoot (root : Node) :
    (ofRoot source o (store.catalogue s o) fileKey root).1.element =
      shownWith store s source o fileKey root := by
  have hsteady : ∀ r ∈ (walkWith store s source o fileKey root).reuse, r.Steady := by
    intro r hr
    change o.reuseFor (componentName root.layer.displayName) (store.catalogue s o) = some r at hr
    rw [Options.reuseFor] at hr
    split at hr
    · rw [← Option.some.inj hr]
      exact fun _ _ => rfl
    · cases hr
  rw [ofRoot_eq]
  exact (walkWith store s source o fileKey root).render_eq_shown hsteady root.inReadingOrder

theorem shownWith_pruned {root : Node} (h : Node.AllPlaced root.children) :
    shownWith store s source o fileKey root.pruned =
      root.inReadingOrder.pruned.shown
        (Reuse.standing? (walkWith store s source o fileKey root).reuse)
        (walkWith store s source o fileKey root).addressOf := by
  have hwalk : walkWith store s source o fileKey root.pruned =
      walkWith store s source o fileKey root := by
    rw [walkWith, walk, Node.layer_pruned]
    rfl
  rw [shownWith, hwalk, Node.inReadingOrder_pruned h]

/-- A design and the design without its hidden nodes have the same markup and the same imports
if and only if the design is candid. The nodes of every document of a client have places. -/
theorem same_without_hidden_iff (root : Node) (h : Node.AllPlaced root.children) :
    let whole := (ofRoot source o (store.catalogue s o) fileKey root).1
    let visible := (ofRoot source o (store.catalogue s o) fileKey root.pruned).1
    visible.markup o.framework = whole.markup o.framework ∧ visible.imports = whole.imports ↔
      root.inReadingOrder.Candid
        (Reuse.standing? (walkWith store s source o fileKey root).reuse)
        (walkWith store s source o fileKey root).addressOf := by
  intro whole visible
  have hwhole := element_ofRoot store s source o fileKey root
  have hvisible := element_ofRoot store s source o fileKey root.pruned
  rw [shownWith_pruned store s source o fileKey h] at hvisible
  rw [← Node.shown_pruned_iff, ← hvisible]
  change _ ↔ visible.element = shownWith store s source o fileKey root
  rw [← hwhole]
  change _ ↔ visible.element = whole.element
  constructor
  · rintro ⟨hmarkup, _⟩
    exact Markup.markup_inj o.framework (legible_ofRoot _ _ _ _ _)
      (legible_ofRoot _ _ _ _ _) hmarkup
  · intro hsame
    refine ⟨?_, ?_⟩
    · rw [markup, markup, hsame]
    · rw [imports_ofRoot, imports_ofRoot]
      exact congrArg (fun e? => (Element.referencesOf e?.toList).eraseDups) hsame

/-! ## A frame with a hidden node -/

/-- A layer of a kind, with a name and without properties. -/
def bareLayer (id name : String) (kind : LayerKind) (visible : Bool) : Layer :=
  { id, name, kind, visible, box := none, layoutMode := none, paddingTop := none,
    paddingBottom := none, paddingLeft := none, paddingRight := none, itemSpacing := none,
    mainAlignment := none, crossAlignment := none, wrap := none, fills := [], strokes := [],
    effects := [], cornerRadius := none, background := none, characters := none,
    typeStyle := none }

def frameWithHidden (name : String) (kind : LayerKind) : Node :=
  .mk (bareLayer "1:1" name .frame true) [.mk (bareLayer "1:2" "secret" kind false) []]

def sourceOf (root : Node) : Source := ⟨fun _ _ => .ok root, fun _ _ => ⟨0, .ok none⟩⟩

def htmlOptions : Options := ⟨.html, "html", true, none⟩

def htmlOf (root : Node) : String :=
  (ofRoot (sourceOf root) htmlOptions (Shelf.store.catalogue [] htmlOptions) "FILE" root).1.markup
    .html

theorem inReadingOrder_frameWithHidden (name : String) (kind : LayerKind) :
    (frameWithHidden name kind).inReadingOrder = frameWithHidden name kind := by
  simp [frameWithHidden, Node.inReadingOrder]

theorem inReadingOrder_pruned_frameWithHidden (name : String) (kind : LayerKind) :
    (frameWithHidden name kind).pruned.inReadingOrder = (frameWithHidden name kind).pruned := by
  simp [frameWithHidden, Node.pruned, Node.prunedAll, Node.inReadingOrder, Node.visible,
    bareLayer]

/-- A hidden text is the text of the label around it; without it there is no label. -/
theorem hidden_text_in_label :
    htmlOf (frameWithHidden "label-x" .text) = "<label class=\"\">secret</label>" ∧
      htmlOf (frameWithHidden "label-x" .text).pruned = "" := by
  refine ⟨?_, ?_⟩
  · simp only [htmlOf, ofRoot, inReadingOrder_frameWithHidden]
    decide
  · simp only [htmlOf, ofRoot, inReadingOrder_pruned_frameWithHidden]
    decide

/-- A frame that is a container is the same without its hidden node. -/
theorem same_without_hidden_card :
    let root := frameWithHidden "Card" .frame
    let catalogue := Shelf.store.catalogue [] htmlOptions
    let whole := (ofRoot (sourceOf root) htmlOptions catalogue "FILE" root).1
    let visible := (ofRoot (sourceOf root) htmlOptions catalogue "FILE" root.pruned).1
    Node.AllPlaced root.children ∧
      visible.markup .html = whole.markup .html ∧ visible.imports = whole.imports := by
  intro root catalogue whole visible
  have hplaced : Node.AllPlaced root.children := by
    intro n hn
    rw [List.mem_singleton.mp hn]
    decide
  refine ⟨hplaced, ?_⟩
  refine (same_without_hidden_iff Shelf.store [] (sourceOf root) htmlOptions "FILE" root
    hplaced).mpr ?_
  rw [inReadingOrder_frameWithHidden]
  exact ⟨fun h => absurd h (by decide), trivial⟩

end Conversion

end DesignComponents
