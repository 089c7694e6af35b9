import DesignComponents.Proofs.Conversion.References

/-!
# What a creation does

A component is rendered from a root that was fetched, or else the failure to fetch it is what
comes of it. A creation hands the component to its store and stops before that when there is
none, so that all that happens to a store is one write.
-/

namespace DesignComponents

namespace Component

variable (source : Source) (o : Options) (catalogue : Catalogue) (fileKey id : String)

/-- The component of a root that was fetched. -/
def ofRoot (root : Node) : Component :=
  ofConversion o (Conversion.ofRoot source o catalogue fileKey root).1

theorem render_of_error {e : Failure} (h : source.document fileKey (nodeId id) = .error e) :
    render source o catalogue fileKey id = (.error e, [.document fileKey (nodeId id)]) := by
  rw [render, Conversion.ofLink, h]
  rfl

theorem render_of_ok {root : Node} (h : source.document fileKey (nodeId id) = .ok root) :
    render source o catalogue fileKey id =
      (.ok (ofRoot source o catalogue fileKey root),
        .document fileKey (nodeId id) :: (Conversion.ofRoot source o catalogue fileKey root).2) := by
  rw [render, Conversion.ofLink, h]
  rfl

theorem render_eq_ok_iff {c : Component} :
    (render source o catalogue fileKey id).1 = .ok c ↔
      ∃ root, source.document fileKey (nodeId id) = .ok root ∧
        ofRoot source o catalogue fileKey root = c := by
  cases hfetched : source.document fileKey (nodeId id) with
  | error e => simp [render_of_error source o catalogue fileKey id hfetched]
  | ok root => simp [render_of_ok source o catalogue fileKey id hfetched]

theorem name_file_ofRoot (root : Node) :
    (ofRoot source o catalogue fileKey root).file.name =
      o.nameFor (componentName root.layer.displayName) := by
  rw [ofRoot, Conversion.ofRoot_eq]
  rfl

end Component

namespace Store

variable {σ : Type} (store : Store σ) (source : Source) (o : Options) (fileKey id : String) (s : σ)

theorem create_of_error {e : Failure}
    (h : (Component.render source o (store.catalogue s o) fileKey id).1 = .error e) :
    store.create source o fileKey id s =
      (.error e, (Component.render source o (store.catalogue s o) fileKey id).2, s) := by
  rw [create]
  rcases hrendered : Component.render source o (store.catalogue s o) fileKey id with ⟨_ | c, calls⟩
  · rw [hrendered] at h
    cases h
    rfl
  · rw [hrendered] at h
    cases h

theorem create_of_ok {c : Component}
    (h : (Component.render source o (store.catalogue s o) fileKey id).1 = .ok c) :
    store.create source o fileKey id s =
      ((store.write s o.framework c.file).1.map (c, ·),
        (Component.render source o (store.catalogue s o) fileKey id).2 ++ [.write c.file.path],
        (store.write s o.framework c.file).2) := by
  rw [create]
  rcases hrendered : Component.render source o (store.catalogue s o) fileKey id with ⟨_ | c', calls⟩
  · rw [hrendered] at h
    cases h
  · rw [hrendered] at h
    cases h
    rfl

/-- A creation succeeds with what was rendered and then written. -/
theorem create_eq_ok_iff {c : Component} {path : String} :
    (store.create source o fileKey id s).1 = .ok (c, path) ↔
      (Component.render source o (store.catalogue s o) fileKey id).1 = .ok c ∧
        (store.write s o.framework c.file).1 = .ok path := by
  cases hrendered : (Component.render source o (store.catalogue s o) fileKey id).1 with
  | error e => simp [create_of_error store source o fileKey id s hrendered]
  | ok c' =>
    rw [create_of_ok store source o fileKey id s hrendered]
    cases hwritten : (store.write s o.framework c'.file).1 with
    | error e =>
      simp only [Except.map, reduceCtorEq, Except.ok.injEq, false_iff, not_and]
      rintro rfl
      simp [hwritten]
    | ok path' =>
      simp only [Except.map, Except.ok.injEq, Prod.mk.injEq]
      constructor
      · rintro ⟨rfl, rfl⟩
        exact ⟨rfl, hwritten⟩
      · rintro ⟨rfl, hpath⟩
        rw [hwritten] at hpath
        exact ⟨rfl, Except.ok.inj hpath⟩

/-! ## What is imported is in the store -/

theorem holds_of_mem_imports {root : Node} {name : String}
    (h : name ∈ (Conversion.ofRoot source o (store.catalogue s o) fileKey root).1.imports) :
    store.holds s o.framework name o.extension = true := by
  by_cases hreuse : (o.reuse && o.framework.importsComponents) = true
  · obtain ⟨_, before, after, _, hholds⟩ :=
      Conversion.imported_of_reuse source o (store.catalogue s o) fileKey root hreuse name h
    exact hholds
  · have hnone :=
      (Conversion.independent_of_no_reuse source o (store.catalogue s o) fileKey root hreuse).1
    rw [hnone] at h
    cases h

end Store

end DesignComponents
