import DesignComponents.Proofs.Conversion.References

/-!
# The nodes that a rendering comes to

From a node a rendering goes on to the nodes inside it, to the heads and cells of its columns, or
to none, as the role of its layer has it. What it comes to depends on the components that stand
for layers and not on images, and the element refers to a component exactly where a layer that is
come to has one.
-/

namespace DesignComponents

open Element

namespace Node

/-- The nodes to which a rendering goes on from a node. -/
def entered (reference? : Layer → Option String) : Node → List Node
  | mk layer children =>
    match layer.roleWith reference? with
    | .table => heads children ++ cells children
    | .headingCell | .dataCell | .container => children
    | .image | .imageContainer | .text | .label | .input | .reference _ | .empty => []

/-- A rendering of the first node comes to the second. -/
def Visits (reference? : Layer → Option String) : Node → Node → Prop :=
  Relation.ReflTransGen fun n inner => inner ∈ n.entered reference?

variable (reference? address? : Layer → Option String)

theorem visits_iff (n v : Node) :
    Visits reference? n v ↔
      n = v ∨ ∃ inner ∈ n.entered reference?, Visits reference? inner v :=
  Relation.ReflTransGen.cases_head_iff

theorem referencesOf_singleton (e : Element) : referencesOf [e] = e.references := by
  rw [referencesOf, referencesOf, List.append_nil]

theorem referencesOf_filterMap (ns : List Node) :
    referencesOf (ns.filterMap (shown reference? address?)) =
      ns.flatMap fun n => referencesOf (n.shown reference? address?).toList := by
  induction ns with
  | nil => rfl
  | cons n ns ih =>
    have hsplit : (n :: ns).filterMap (shown reference? address?) =
        (n.shown reference? address?).toList ++ ns.filterMap (shown reference? address?) := by
      rw [List.filterMap_cons]
      cases n.shown reference? address? with
      | none => rfl
      | some e => rfl
    rw [hsplit, referencesOf_append, ih, List.flatMap_cons]

theorem references_shown (n : Node) :
    referencesOf (n.shown reference? address?).toList =
      Walk.referencesOfRole (n.layer.roleWith reference?) ++
        (n.entered reference?).flatMap fun inner =>
          referencesOf (inner.shown reference? address?).toList := by
  obtain ⟨layer, children⟩ := n
  rw [shown_mk, entered, layer_mk]
  cases layer.roleWith reference? with
  | reference own => rfl
  | image => exact Walk.referencesOf_image .plain (address? layer) layer.classes
  | imageContainer => exact Walk.referencesOf_image .contained (address? layer) layer.classes
  | label => exact Walk.referencesOf_label (Walk.firstText? children)
  | input => exact Walk.referencesOf_input layer (Walk.firstText? children)
  | text | empty => rfl
  | table =>
    dsimp only
    rw [Option.toList_some, referencesOf_singleton, references, referencesOf_filterMap,
      referencesOf_filterMap, List.flatMap_append]
    rfl
  | headingCell | dataCell | container =>
    dsimp only
    rw [Option.toList_some, referencesOf_singleton, references, referencesOf_filterMap]
    rfl

/-- What holds of all nodes that are entered from a node holds of the node: induction over a
rendering. -/
theorem entered_induction {P : Node → Prop}
    (step : ∀ n, (∀ inner ∈ n.entered reference?, P inner) → P n) (n : Node) : P n := by
  induction n using Node.induction with
  | step layer children hchildren hheads hcells =>
    apply step
    intro inner hinner
    rw [entered] at hinner
    cases hrole : layer.roleWith reference? with
    | table =>
      rw [hrole] at hinner
      rcases List.mem_append.mp hinner with hhead | hcell
      · exact hheads inner hhead
      · exact hcells inner hcell
    | headingCell | dataCell | container =>
      rw [hrole] at hinner
      exact hchildren inner hinner
    | image | imageContainer | text | label | input | reference _ | empty =>
      rw [hrole] at hinner
      cases hinner

theorem mem_referencesOfRole (name : String) (role : Role) :
    name ∈ Walk.referencesOfRole role ↔ role = .reference name := by
  cases role with
  | reference own => simp [Walk.referencesOfRole, eq_comm]
  | _ => simp [Walk.referencesOfRole]

/-- An element refers to the components of the layers that its rendering comes to. -/
theorem mem_references_iff_visits (name : String) (n : Node) :
    name ∈ referencesOf (n.shown reference? address?).toList ↔
      ∃ v, Visits reference? n v ∧ v.layer.roleWith reference? = .reference name := by
  induction n using entered_induction reference? with
  | step n hentered =>
    rw [references_shown, List.mem_append, mem_referencesOfRole, List.mem_flatMap]
    constructor
    · rintro (hown | ⟨inner, hinner, hname⟩)
      · exact ⟨_, .refl, hown⟩
      · obtain ⟨v, hv, hrole⟩ := (hentered inner hinner).mp hname
        exact ⟨v, .head hinner hv, hrole⟩
    · rintro ⟨v, hv, hrole⟩
      rcases (visits_iff reference? _ v).mp hv with rfl | ⟨inner, hinner, hv⟩
      · exact .inl hrole
      · exact .inr ⟨inner, hinner, (hentered inner hinner).mpr ⟨v, hv, hrole⟩⟩

end Node

/-! ## Components that stand for layers -/

theorem Layer.roleWith_eq_reference_iff {reference? : Layer → Option String} {layer : Layer}
    {name : String} :
    layer.roleWith reference? = .reference name ↔
      layer.visible = true ∧ reference? layer = some name := by
  rw [roleWith_eq]
  cases layer.visible with
  | false => simp
  | true =>
    cases hreference : reference? layer with
    | none => simp [layer.ownRole_ne_reference name]
    | some own => simp

theorem Reuse.standing?_eq_some_iff {r : Reuse} {layer : Layer} {name : String} :
    standing? (some r) layer = some name ↔
      componentName layer.displayName = name ∧ name ≠ r.rootName ∧
        r.catalogue [] name = true := by
  simp only [standing?, named?]
  split
  · rename_i hstands
    constructor
    · intro h
      obtain rfl := Option.some.inj h
      exact ⟨rfl, hstands⟩
    · rintro ⟨rfl, _⟩
      rfl
  · rename_i hstands
    constructor
    · intro h
      cases h
    · rintro ⟨rfl, hstanding⟩
      exact absurd hstanding hstands

end DesignComponents
