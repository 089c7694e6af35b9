import DesignComponents.Proofs.Component.Identifier
import DesignComponents.Proofs.Conversion.DepthFirst
import DesignComponents.Proofs.Conversion.Ledger
import DesignComponents.Proofs.Style.PlainClasses

/-!
# The element that a design shows

Once it is known which component stands for a layer and where images are, the element of a design
is a function of the design: visible nodes in their order, nested as in the design. A rendering
asks for these things on its way and ends with the same element, and its markup reads back as
that element whatever names, texts and addresses it is made of.
-/

namespace DesignComponents

open Element

def Layer.roleWith (reference? : Layer → Option String) (layer : Layer) : Role :=
  layer.classify (m := Id) reference?

namespace Node

/-- The element of a node when it is known what stands for layers and where images are. -/
def shown (reference? address? : Layer → Option String) (n : Node) : Option Element :=
  n.renderWith (m := Id) reference? address?

variable (reference? address? : Layer → Option String)

theorem renderAllWith_eq_filterMap (ns : List Node) :
    renderAllWith (m := Id) reference? address? ns = ns.filterMap (shown reference? address?) := by
  induction ns with
  | nil => rw [renderAllWith]; rfl
  | cons n ns ih =>
    rw [renderAllWith, List.filterMap_cons, ← ih]
    change (n.shown reference? address?).toList ++ _ = _
    cases n.shown reference? address? with
    | none => rfl
    | some e => rfl

/-- What a node shows, by the role of its layer. -/
theorem shown_mk (layer : Layer) (children : List Node) :
    (mk layer children).shown reference? address? =
      match layer.roleWith reference? with
      | .empty => none
      | .reference name => some (.reference name)
      | .image => (address? layer).map (.image · layer.classes)
      | .imageContainer => (address? layer).map (.imageContainer · layer.classes)
      | .text => some (.text (Walk.textOf layer) layer.classes)
      | .label => Walk.labelOf (Walk.firstText? children)
      | .input => some (Walk.inputOf layer (Walk.firstText? children))
      | .table =>
        some (.table ((heads children).filterMap (shown reference? address?))
          ((cells children).filterMap (shown reference? address?)))
      | .headingCell =>
        some (.headingCell (children.filterMap (shown reference? address?)) layer.classes)
      | .dataCell =>
        some (.dataCell (children.filterMap (shown reference? address?)) layer.classes)
      | .container =>
        some (.container (children.filterMap (shown reference? address?)) layer.classes) := by
  have hrole : layer.classify (m := Id) reference? = layer.roleWith reference? := rfl
  simp only [← renderAllWith_eq_filterMap]
  rw [shown, renderWith, hrole]
  cases layer.roleWith reference? with
  | _ => rfl

end Node

/-! ## Renderings show it -/

namespace Walk

variable (w : Walk)

def addressOf (layer : Layer) : Option String := (w.image layer.id).address?

/-- The answers that a program is given stay, and with all answers known its result is that of a
program that asks for nothing. -/
def Foresees (answers : List (String × Bool)) (α : Type) (x : StateM Ledger α) (y : Id α) : Prop :=
  ∀ l, l.answers <+: (x l).2.answers ∧ ((x l).2.answers <+: answers → y.run = (x l).1)

theorem simulation_foresees (answers : List (String × Bool)) :
    Simulation (StateM Ledger) Id (Foresees answers) where
  pure _ _ := ⟨List.prefix_refl _, fun _ => rfl⟩
  bind {_ _ x y f g} hx hf l := by
    obtain ⟨hgrows, hvalue⟩ := hx l
    obtain ⟨hgrowsOn, hvalueOn⟩ := hf (x l).1 (x l).2
    refine ⟨hgrows.trans hgrowsOn, fun hanswers => ?_⟩
    -- The first part has its answers before the second asks for more.
    have hknown : y.run = (x l).1 := hvalue (hgrowsOn.trans hanswers)
    change (g y.run).run = _
    rw [hknown]
    exact hvalueOn hanswers

theorem foresees_render (answers : List (String × Bool)) (n : Node) :
    Foresees answers (Option Element) (w.render n)
      (n.shown (Ledger.reference? w.reuse answers) w.addressOf) := by
  refine (simulation_foresees answers).renderWith ?_ ?_ n
  · intro layer l
    obtain ⟨hgrows, hvalue, _⟩ := Ledger.componentFor_spec w.reuse layer l
    exact ⟨hgrows, hvalue answers⟩
  · intro layer l
    exact ⟨List.prefix_refl _, fun _ => rfl⟩

theorem shown_of_render (n : Node) (l : Ledger) :
    n.shown (Ledger.reference? w.reuse (w.render n l).2.answers) w.addressOf =
      (w.render n l).1 :=
  (w.foresees_render _ n l).2 (List.prefix_refl _)

/-- A program keeps the ledger truthful and returns what it would if nothing had been asked. -/
def Agrees (α : Type) (x : StateM Ledger α) (y : Id α) : Prop :=
  ∀ l, l.Truthful w.reuse → (x l).1 = y.run ∧ (x l).2.Truthful w.reuse

theorem simulation_agrees : Simulation (StateM Ledger) Id w.Agrees where
  pure _ _ h := ⟨rfl, h⟩
  bind {_ _ x y f g} hx hf l h := by
    obtain ⟨hvalue, htruthful⟩ := hx l h
    have hrest := hf (x l).1 (x l).2 htruthful
    change (f (x l).1 (x l).2).1 = (g y.run).run ∧ _
    rw [← hvalue]
    exact hrest

/-- With a steady catalogue the element is decided by the design, the catalogue and the images
alone. -/
theorem render_eq_shown (hsteady : ∀ r ∈ w.reuse, r.Steady) (n : Node) :
    (w.render n .empty).1 = n.shown (Reuse.standing? w.reuse) w.addressOf := by
  have hagrees : w.Agrees _ (w.render n) (n.shown (Reuse.standing? w.reuse) w.addressOf) := by
    refine w.simulation_agrees.renderWith ?_ ?_ n
    · intro layer l h
      exact h.componentFor hsteady layer
    · intro layer l h
      exact ⟨rfl, h⟩
  have hempty : Ledger.empty.Truthful w.reuse := fun _ _ _ _ h => absurd h (Option.not_mem_none _)
  exact (hagrees .empty hempty).1

end Walk

/-! ## The element is legible -/

theorem Layer.roleWith_eq (reference? : Layer → Option String) (layer : Layer) :
    layer.roleWith reference? =
      if layer.visible then
        match reference? layer with
        | some name => .reference name
        | none => layer.ownRole
      else .empty := by
  unfold roleWith classify
  split
  · change (match reference? layer with | some name => _ | none => _) = _
    cases reference? layer with
    | none => rfl
    | some name => rfl
  · rfl

theorem Layer.ownRole_ne_reference (layer : Layer) (name : String) :
    layer.ownRole ≠ .reference name := by
  unfold ownRole
  dsimp only
  repeat' split
  all_goals exact Role.noConfusion

theorem Layer.reference_of_roleWith {reference? : Layer → Option String} {layer : Layer}
    {name : String} (h : layer.roleWith reference? = .reference name) :
    reference? layer = some name := by
  rw [roleWith_eq] at h
  split at h
  · split at h
    · rename_i found hfound
      rw [hfound, Role.reference.inj h]
    · exact absurd h (layer.ownRole_ne_reference name)
  · exact absurd h Role.noConfusion

theorem Reuse.isComponentName_of_named? {reuse : Option Reuse} {has : Reuse → String → Bool}
    {layer : Layer} {name : String} (h : named? reuse has layer = some name) :
    IsComponentName name.toList := by
  cases reuse with
  | none => cases h
  | some r =>
    simp only [named?] at h
    split at h
    · rw [← Option.some.inj h]
      exact isComponentName_componentName layer.displayName
    · cases h

theorem Layer.allBare_classes (layer : Layer) : layer.classes.AllBare :=
  layer.plain_classes.allBare

theorem legible_inputOf (layer : Layer) (text? : Option Layer) :
    (Walk.inputOf layer text?).Legible := by
  have hplain : ∀ c : ClassList, c.Plain → c.AllBare ∧ Markup.inputClass ∉ c.tokens :=
    fun c hc => ⟨hc.allBare, hc.inputClass_not_mem⟩
  cases text? with
  | none => exact hplain _ layer.plain_classes
  | some text => exact hplain _ (layer.plain_classes.append text.plain_textColorClasses)

theorem legibleAll_iff (es : List Element) : LegibleAll es ↔ ∀ e ∈ es, e.Legible := by
  induction es with
  | nil => exact ⟨fun _ => List.forall_mem_nil _, fun _ => trivial⟩
  | cons e es ih => rw [LegibleAll, ih, List.forall_mem_cons]

namespace Node

variable {reference? address? : Layer → Option String}

theorem legibleAll_filterMap_shown {ns : List Node}
    (h : ∀ n ∈ ns, ∀ e ∈ n.shown reference? address?, e.Legible) :
    LegibleAll (ns.filterMap (shown reference? address?)) := by
  refine (legibleAll_iff _).mpr ?_
  intro e he
  obtain ⟨n, hn, hshown⟩ := List.mem_filterMap.mp he
  exact h n hn e hshown

/-- Whatever a design is made of, the element that it shows is legible. -/
theorem legible_shown
    (hreference : ∀ layer, ∀ name ∈ reference? layer, IsComponentName name.toList) (n : Node) :
    ∀ e ∈ n.shown reference? address?, e.Legible := by
  induction n using Node.induction with
  | step layer children hchildren hheads hcells =>
    intro e he
    have hcontent := legibleAll_filterMap_shown hchildren
    have htop := legibleAll_filterMap_shown hheads
    have hbottom := legibleAll_filterMap_shown hcells
    rw [shown_mk] at he
    split at he
    · cases he
    · rename_i name hrole
      rw [← Option.some.inj he]
      exact hreference layer name (Layer.reference_of_roleWith hrole)
    · obtain ⟨address, _, rfl⟩ := Option.map_eq_some_iff.mp he
      exact layer.allBare_classes
    · obtain ⟨address, _, rfl⟩ := Option.map_eq_some_iff.mp he
      exact layer.allBare_classes
    · rw [← Option.some.inj he]
      exact layer.allBare_classes
    · cases htext : Walk.firstText? children with
      | none =>
        rw [htext] at he
        cases he
      | some text =>
        rw [htext] at he
        rw [← Option.some.inj he]
        exact text.allBare_classes
    · rw [← Option.some.inj he]
      exact legible_inputOf layer _
    · rw [← Option.some.inj he]
      exact ⟨htop, hbottom⟩
    all_goals
      rw [← Option.some.inj he]
      exact ⟨hcontent, layer.allBare_classes⟩

end Node

namespace Walk

variable (w : Walk)

theorem legible_render (n : Node) (l : Ledger) : ∀ e ∈ (w.render n l).1, e.Legible := by
  rw [← w.shown_of_render]
  refine Node.legible_shown ?_ n
  intro layer name h
  exact Reuse.isComponentName_of_named? h

end Walk

end DesignComponents
