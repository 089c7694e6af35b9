import DesignComponents.Proofs.Conversion.FailedImages

/-!
# What a conversion does not depend on

A conversion depends on a store only by the components that stand for the layers that it comes to.
So it stays the same when a component is added that has the name of none of them, and also when
one is added that has the name of the root, since none of that name ever stands for a layer.
-/

namespace DesignComponents

theorem Layer.roleWith_congr {reference? reference?' : Layer → Option String} {layer : Layer}
    (h : layer.visible = true → reference?' layer = reference? layer) :
    layer.roleWith reference?' = layer.roleWith reference? := by
  rw [roleWith_eq, roleWith_eq]
  cases hvisible : layer.visible with
  | false => rfl
  | true => rw [h hvisible]

namespace Node

variable {reference? reference?' : Layer → Option String}

theorem entered_congr {n : Node}
    (h : n.visible = true → reference?' n.layer = reference? n.layer) :
    n.entered reference?' = n.entered reference? := by
  have hrole := Layer.roleWith_congr h
  obtain ⟨layer, children⟩ := n
  rw [layer_mk] at hrole
  rw [entered, entered, hrole]

/-- The same is shown where the same components stand for the layers that are come to. -/
theorem shown_congr_of_visits (address? : Layer → Option String) {n : Node}
    (h : ∀ v, Visits reference? n v → v.visible = true →
      reference?' v.layer = reference? v.layer) :
    n.shown reference?' address? = n.shown reference? address? := by
  induction n using entered_induction reference? with
  | step n hentered =>
    have hinner : ∀ inner ∈ n.entered reference?,
        inner.shown reference?' address? = inner.shown reference? address? := by
      intro inner hmem
      apply hentered inner hmem
      intro v hv
      exact h v (.head hmem hv)
    have hrole := Layer.roleWith_congr (h n .refl)
    obtain ⟨layer, children⟩ := n
    rw [layer_mk] at hrole
    rw [entered] at hinner
    rw [shown_mk, shown_mk, hrole]
    cases hown : layer.roleWith reference? with
    | table =>
      rw [hown] at hinner
      have hheads : (heads children).filterMap (shown reference?' address?) =
          (heads children).filterMap (shown reference? address?) :=
        List.filterMap_congr fun inner hmem => hinner inner (List.mem_append_left _ hmem)
      have hcells : (cells children).filterMap (shown reference?' address?) =
          (cells children).filterMap (shown reference? address?) :=
        List.filterMap_congr fun inner hmem => hinner inner (List.mem_append_right _ hmem)
      dsimp only
      rw [hheads, hcells]
    | headingCell | dataCell | container =>
      rw [hown] at hinner
      dsimp only
      rw [List.filterMap_congr hinner]
    | image | imageContainer | text | label | input | reference _ | empty => rfl

theorem visits_congr {n : Node}
    (h : ∀ v, Visits reference? n v → v.visible = true →
      reference?' v.layer = reference? v.layer) (v : Node) :
    Visits reference?' n v ↔ Visits reference? n v := by
  induction n using entered_induction reference? with
  | step n hentered =>
    rw [visits_iff, visits_iff, entered_congr (h n .refl)]
    apply or_congr_right
    apply exists_congr
    intro inner
    apply and_congr_right
    intro hmem
    exact hentered inner hmem fun v hv => h v (.head hmem hv)

end Node

namespace Conversion

variable {σ : Type} {store : Store σ} {s s' : σ} (source : Source) {o : Options}
  (fileKey : String) {root : Node}

theorem standing_congr {layer : Layer}
    (h : (o.reuse && o.framework.importsComponents) = true →
      componentName layer.displayName ≠ componentName root.layer.displayName →
        store.holds s' o.framework (componentName layer.displayName) o.extension =
          store.holds s o.framework (componentName layer.displayName) o.extension) :
    standing store s' o root layer = standing store s o root layer := by
  apply Option.ext
  intro name
  rw [standing_eq_some_iff, standing_eq_some_iff]
  apply and_congr_right
  intro hreuse
  apply and_congr_right
  rintro rfl
  apply and_congr_right
  intro hother
  rw [h hreuse hother]

/-- Two stores make no difference to a conversion when the same of their components stand for the
layers that it comes to. -/
theorem ofRoot_congr
    (h : ∀ v, Node.Visits (standing store s o root) root.inReadingOrder v → v.visible = true →
      standing store s' o root v.layer = standing store s o root v.layer) :
    (ofRoot source o (store.catalogue s' o) fileKey root).1 =
      (ofRoot source o (store.catalogue s o) fileKey root).1 := by
  have helement : (ofRoot source o (store.catalogue s' o) fileKey root).1.element =
      (ofRoot source o (store.catalogue s o) fileKey root).1.element := by
    rw [element_ofRoot_eq_shown, element_ofRoot_eq_shown]
    exact Node.shown_congr_of_visits (source.addressIn fileKey) h
  have himports : (ofRoot source o (store.catalogue s' o) fileKey root).1.imports =
      (ofRoot source o (store.catalogue s o) fileKey root).1.imports := by
    rw [imports_ofRoot, imports_ofRoot, helement]
  have hname : (ofRoot source o (store.catalogue s' o) fileKey root).1.name =
      (ofRoot source o (store.catalogue s o) fileKey root).1.name := by
    rw [ofRoot_eq, ofRoot_eq]
    rfl
  calc (ofRoot source o (store.catalogue s' o) fileKey root).1
      = ⟨(ofRoot source o (store.catalogue s' o) fileKey root).1.name,
          (ofRoot source o (store.catalogue s' o) fileKey root).1.element,
          (ofRoot source o (store.catalogue s' o) fileKey root).1.imports⟩ := rfl
    _ = (ofRoot source o (store.catalogue s o) fileKey root).1 := by
      rw [hname, helement, himports]

end Conversion

/-! ## Components that are added -/

/-- Where the second store is looked up, it holds what the first one does and the file of this
component. -/
def Store.Added {σ : Type} (store : Store σ) (o : Options) (name : String) (s s' : σ) : Prop :=
  ∀ raw, store.holds s' o.framework (componentName raw) o.extension = true ↔
    store.holds s o.framework (componentName raw) o.extension = true ∨
      o.framework.filePath (componentName raw) o.extension = o.framework.filePath name o.extension

theorem Shelf.added_append (shelf : Shelf) (o : Options) (name : String) :
    Shelf.store.Added o name shelf (shelf ++ [o.framework.filePath name o.extension]) := by
  intro raw
  change List.contains _ _ = true ↔ List.contains _ _ = true ∨ _
  rw [List.contains_iff_mem, List.contains_iff_mem, List.mem_append, List.mem_singleton]

namespace Conversion

variable {σ : Type} {store : Store σ} {s s' : σ} {o : Options} {root : Node} {name : String}

theorem standing_of_added (hadded : store.Added o name s s') {layer : Layer}
    (hname : name = componentName root.layer.displayName ∨
      componentName layer.displayName ≠ name) :
    standing store s' o root layer = standing store s o root layer := by
  apply standing_congr
  intro hreuse hother
  have hdistinct : componentName layer.displayName ≠ name := by
    rcases hname with rfl | hname
    · exact hother
    · exact hname
  have hf : o.framework.importsComponents = true := (Bool.and_eq_true_iff.mp hreuse).2
  rw [Bool.eq_iff_iff, hadded layer.displayName, Framework.filePath_inj (Framework.ne_angular hf)]
  exact or_iff_left hdistinct

/-- A component that is added makes no difference to a conversion if it has the name of the root
or the name of no visible layer that the conversion comes to. It comes to the same nodes. -/
theorem ofRoot_of_added (source : Source) (fileKey : String) (hadded : store.Added o name s s')
    (hname : name = componentName root.layer.displayName ∨
      ∀ v, Node.Visits (standing store s o root) root.inReadingOrder v → v.visible = true →
        componentName v.layer.displayName ≠ name) :
    (ofRoot source o (store.catalogue s' o) fileKey root).1 =
        (ofRoot source o (store.catalogue s o) fileKey root).1 ∧
      ∀ v, Node.Visits (standing store s' o root) root.inReadingOrder v ↔
        Node.Visits (standing store s o root) root.inReadingOrder v := by
  have hsame : ∀ v, Node.Visits (standing store s o root) root.inReadingOrder v →
      v.visible = true → standing store s' o root v.layer = standing store s o root v.layer := by
    intro v hv hvisible
    apply standing_of_added hadded
    exact hname.imp_right fun hstranger => hstranger v hv hvisible
  exact ⟨ofRoot_congr source fileKey hsame, Node.visits_congr hsame⟩

end Conversion

end DesignComponents
