import DesignComponents.Proofs.Conversion.Outline

/-!
# Imports and references

A component is imported when a layer is found to stand for it, long before the markup is put
together. Still the imports are the references of the markup in reading order, each once, and
every one of them is a component that the catalogue was asked for and has.
-/

namespace DesignComponents

open Element Markup

/-! ## References in tags -/

namespace Markup.Tag

mutual

/-- The names of the tags that refer to components: those without attributes and content. -/
def references : Tag → List String
  | single name [] => [name]
  | single _ (_ :: _) => []
  | around _ _ _ content => referencesOf content

def referencesOf : List Tag → List String
  | [] => []
  | t :: rest => references t ++ referencesOf rest

end

end Markup.Tag

namespace Element

mutual

theorem references_tag (f : Framework) : (e : Element) → (e.tag f).references = e.references
  | image _ _ | imageContainer _ _ | text _ _ | label _ _ | input _ _ | reference _ => rfl
  | table heads cells => by
    simp only [tag, rowTag, Tag.references, Tag.referencesOf, references, List.append_nil,
      references_tags f heads, references_tags f cells]
  | headingCell content _ | dataCell content _ | container content _ => references_tags f content

theorem references_tags (f : Framework) :
    (es : List Element) → Tag.referencesOf (tags f es) = referencesOf es
  | [] => rfl
  | e :: es => by
    rw [tags, Tag.referencesOf, referencesOf, references_tag f e, references_tags f es]

end

theorem referencesOf_append (es es' : List Element) :
    referencesOf (es ++ es') = referencesOf es ++ referencesOf es' := by
  induction es with
  | nil => rfl
  | cons e es ih => rw [List.cons_append, referencesOf, referencesOf, ih, List.append_assoc]

end Element

/-! ## Imports -/

namespace Imports

def insertAll (imports : Imports) (names : List String) : Imports := names.foldl insert imports

theorem insertAll_append (imports : Imports) (names names' : List String) :
    imports.insertAll (names ++ names') = (imports.insertAll names).insertAll names' :=
  List.foldl_append

/-- Each name is imported once, at its first place. -/
theorem names_insertAll (imports : Imports) (names : List String) :
    (imports.insertAll names).names =
      imports.names ++ (names.filter (· ∉ imports.names)).eraseDups := by
  induction names generalizing imports with
  | nil => exact (List.append_nil _).symm
  | cons name names ih =>
    change ((imports.insert name).insertAll names).names = _
    rw [ih, names_insert]
    by_cases h : name ∈ imports.names
    · rw [if_pos h, List.filter_cons_of_neg (by simp [h])]
    · have hrest : names.filter (· ∉ imports.names ++ [name]) =
          (names.filter (· ∉ imports.names)).filter (fun other => !other == name) := by
        rw [List.filter_filter]
        refine List.filter_congr fun other _ => ?_
        by_cases hother : other = name <;> simp [hother]
      rw [if_neg h, List.filter_cons_of_pos (by simp [h]), List.eraseDups_cons, hrest,
        List.append_assoc]
      rfl

theorem names_insertAll_empty (names : List String) :
    (empty.insertAll names).names = names.eraseDups := by
  rw [names_insertAll]
  change ((names.filter fun _ => _).eraseDups) = _
  rw [List.filter_eq_self.mpr (by simp [empty])]

end Imports

theorem eq_nil_of_eraseDups_eq_nil {names : List String} (h : names.eraseDups = []) :
    names = [] := by
  cases names with
  | nil => rfl
  | cons name names =>
    rw [List.eraseDups_cons] at h
    exact absurd h (List.cons_ne_nil _ _)

namespace Walk

variable (w : Walk)

def referencesOfRole : Role → List String
  | .reference name => [name]
  | _ => []

theorem imports_classify (layer : Layer) (l : Ledger) :
    (Layer.classify (m := StateM Ledger) (Ledger.componentFor w.reuse) layer l).2.imports =
      l.imports.insertAll (referencesOfRole
        (Layer.classify (m := StateM Ledger) (Ledger.componentFor w.reuse) layer l).1) := by
  unfold Layer.classify
  split
  · have hspec := (Ledger.componentFor_spec w.reuse layer l).2.2
    rcases hfound : Ledger.componentFor w.reuse layer l with ⟨_ | name, l'⟩
    · rw [hfound] at hspec
      rw [Ledger.bind_eq hfound]
      have hown : referencesOfRole layer.ownRole = [] := by
        cases hrole : layer.ownRole with
        | reference name => exact absurd hrole (layer.ownRole_ne_reference name)
        | _ => rfl
      change l'.imports = l.imports.insertAll (referencesOfRole layer.ownRole)
      rw [hown]
      exact hspec
    · rw [hfound] at hspec
      rw [Ledger.bind_eq hfound]
      exact hspec
  · rfl

theorem imports_renderAll {ns : List Node}
    (h : ∀ n ∈ ns, ∀ l, (w.render n l).2.imports =
      l.imports.insertAll (referencesOf (w.render n l).1.toList)) (l : Ledger) :
    (w.renderAll ns l).2.imports = l.imports.insertAll (referencesOf (w.renderAll ns l).1) := by
  induction ns generalizing l with
  | nil =>
    rw [renderAll_nil]
    rfl
  | cons n ns ih =>
    obtain ⟨hn, hns⟩ := List.forall_mem_cons.mp h
    rcases hfirst : w.render n l with ⟨element, l'⟩
    rcases hothers : w.renderAll ns l' with ⟨elements, l''⟩
    have himports := hn l
    have hrest := ih hns l'
    rw [hfirst] at himports
    rw [hothers] at hrest
    rw [renderAll_cons, Ledger.bind_eq hfirst, Ledger.bind_eq hothers]
    change l''.imports = l.imports.insertAll (referencesOf (element.toList ++ elements))
    rw [referencesOf_append, Imports.insertAll_append, hrest]
    exact congrArg (Imports.insertAll · _) himports

theorem referencesOf_image (form : ImageForm) (address? : Option String) (c : ClassList) :
    referencesOf (address?.map (form.element · c)).toList = [] := by
  cases address? with
  | none => rfl
  | some address => cases form <;> rfl

theorem referencesOf_label (text? : Option Layer) : referencesOf (labelOf text?).toList = [] := by
  cases text? with
  | none => rfl
  | some text => rfl

theorem referencesOf_input (layer : Layer) (text? : Option Layer) :
    referencesOf [inputOf layer text?] = [] := by
  cases text? with
  | none => rfl
  | some text => rfl

theorem imports_content {ns : List Node}
    (h : ∀ n ∈ ns, ∀ l, (w.render n l).2.imports =
      l.imports.insertAll (referencesOf (w.render n l).1.toList))
    {l l' : Ledger} {elements : List Element} (helements : w.renderAll ns l = (elements, l'))
    {e : Element} (he : e.references = referencesOf elements) :
    l'.imports = l.imports.insertAll (referencesOf [e]) := by
  have hcontent := w.imports_renderAll h l
  rw [helements] at hcontent
  rw [referencesOf, he, referencesOf, List.append_nil]
  exact hcontent

theorem imports_rows {heads cells : List Node}
    (hheads : ∀ n ∈ heads, ∀ l, (w.render n l).2.imports =
      l.imports.insertAll (referencesOf (w.render n l).1.toList))
    (hcells : ∀ n ∈ cells, ∀ l, (w.render n l).2.imports =
      l.imports.insertAll (referencesOf (w.render n l).1.toList))
    {l l' l'' : Ledger} {headElements cellElements : List Element}
    (hheadElements : w.renderAll heads l = (headElements, l'))
    (hcellElements : w.renderAll cells l' = (cellElements, l'')) :
    l''.imports = l.imports.insertAll (referencesOf [.table headElements cellElements]) := by
  have htop := w.imports_renderAll hheads l
  have hbottom := w.imports_renderAll hcells l'
  rw [hheadElements] at htop
  rw [hcellElements] at hbottom
  rw [referencesOf, referencesOf, List.append_nil, references, Imports.insertAll_append]
  rw [← htop]
  exact hbottom

/-- A rendering imports what its element refers to, in reading order. -/
theorem imports_render (n : Node) (l : Ledger) :
    (w.render n l).2.imports = l.imports.insertAll (referencesOf (w.render n l).1.toList) := by
  induction n using Node.induction generalizing l with
  | step layer children hchildren hheads hcells =>
    have hclass := w.imports_classify layer l
    rcases hrole : Layer.classify (m := StateM Ledger) (Ledger.componentFor w.reuse) layer l
      with ⟨role, l'⟩
    rw [hrole] at hclass
    rw [render_mk, Ledger.bind_eq hrole]
    -- Only a reference is imported for the layer itself.
    have hkept : referencesOfRole role = [] → l.imports = l'.imports := by
      intro hnone
      rw [hnone] at hclass
      exact hclass.symm
    have hleaf : ∀ {es : List Element}, referencesOf es = [] →
        l'.imports = l'.imports.insertAll (referencesOf es) := by
      intro es hes
      rw [hes]
      rfl
    rcases hcontent : w.renderAll children l' with ⟨elements, l''⟩
    cases role with
    | reference name => exact hclass
    | image =>
      rw [hkept rfl]
      exact hleaf (referencesOf_image .plain _ _)
    | imageContainer =>
      rw [hkept rfl]
      exact hleaf (referencesOf_image .contained _ _)
    | label =>
      rw [hkept rfl]
      exact hleaf (referencesOf_label (firstText? children))
    | input =>
      rw [hkept rfl]
      exact hleaf (referencesOf_input layer (firstText? children))
    | text | empty =>
      rw [hkept rfl]
      exact hleaf rfl
    | table =>
      rcases htop : w.renderAll (Node.heads children) l' with ⟨headElements, lheads⟩
      rcases hbottom : w.renderAll (Node.cells children) lheads with ⟨cellElements, lcells⟩
      dsimp only
      rw [hkept rfl, Ledger.bind_eq htop, Ledger.bind_eq hbottom]
      exact w.imports_rows hheads hcells htop hbottom
    | headingCell | dataCell | container =>
      dsimp only
      rw [hkept rfl, Ledger.bind_eq hcontent]
      refine w.imports_content hchildren hcontent ?_
      rw [references]

/-- A program preserves a property of ledgers. What it returns does not matter. -/
def Preserves (P : Ledger → Prop) (α : Type) (x : StateM Ledger α) (_ : Id α) : Prop :=
  ∀ l, P l → P (x l).2

theorem simulation_preserves (P : Ledger → Prop) :
    Simulation (StateM Ledger) Id (Preserves P) where
  pure _ _ h := h
  bind hx hf l h := hf _ _ (hx l h)

/-- What everything that is asked for preserves is preserved by a rendering. -/
theorem preserved_by_render {P : Ledger → Prop}
    (hcomponent : ∀ layer l, P l → P (Ledger.componentFor w.reuse layer l).2)
    (himage : ∀ id l, P l → P (l.record (.image w.fileKey id))) (n : Node) (l : Ledger) (h : P l) :
    P (w.render n l).2 := by
  have hreference : ∀ layer, Preserves P _ (Ledger.componentFor w.reuse layer) none := hcomponent
  have haddress : ∀ layer, Preserves P _ (w.awaitImage layer) none :=
    fun layer => himage layer.id
  exact (simulation_preserves P).renderWith hreference haddress n l h

theorem accounted_render {r : Reuse} (hreuse : w.reuse = some r) (n : Node) :
    (w.render n .empty).2.Accounted r := by
  refine w.preserved_by_render ?_ ?_ n .empty (Ledger.accounted_empty r)
  · intro layer l h
    rw [hreuse]
    exact h.componentFor layer
  · intro id l h
    exact h.record w.fileKey id

theorem independent_render (hreuse : w.reuse = none) (n : Node) :
    (w.render n .empty).2.Independent := by
  refine w.preserved_by_render ?_ ?_ n .empty ⟨rfl, rfl⟩
  · intro layer l h
    rw [hreuse]
    exact h
  · intro id l h
    exact h.record w.fileKey id

end Walk

namespace Conversion

variable (source : Source) (o : Options) (catalogue : Catalogue) (fileKey : String) (root : Node)

theorem legible_ofRoot :
    ∀ e ∈ (ofRoot source o catalogue fileKey root).1.element, e.Legible := by
  rw [ofRoot_eq]
  exact (walk source o catalogue fileKey root).legible_render root.inReadingOrder .empty

theorem imports_ofRoot :
    (ofRoot source o catalogue fileKey root).1.imports =
      (referencesOf (ofRoot source o catalogue fileKey root).1.element.toList).eraseDups := by
  rw [ofRoot_eq, ← Imports.names_insertAll_empty]
  exact congrArg Imports.names
    ((walk source o catalogue fileKey root).imports_render root.inReadingOrder .empty)

theorem imported_of_reuse (hreuse : (o.reuse && o.framework.importsComponents) = true) :
    ∀ name ∈ (ofRoot source o catalogue fileKey root).1.imports,
      name ≠ (ofRoot source o catalogue fileKey root).1.name ∧
        ∃ before after,
          (ofRoot source o catalogue fileKey root).2 = before ++ .lookup name o.extension :: after ∧
            catalogue (Call.lookedUp before) name = true := by
  rw [ofRoot_eq]
  have haccounted := (walk source o catalogue fileKey root).accounted_render (if_pos hreuse)
    root.inReadingOrder
  intro name hname
  obtain ⟨hroot, hyes⟩ := haccounted.imported name hname
  exact ⟨hroot, haccounted.answered name hyes⟩

theorem independent_of_no_reuse (hreuse : ¬(o.reuse && o.framework.importsComponents) = true) :
    (ofRoot source o catalogue fileKey root).1.imports = [] ∧
      Call.lookedUp (ofRoot source o catalogue fileKey root).2 = [] := by
  rw [ofRoot_eq]
  exact (walk source o catalogue fileKey root).independent_render (if_neg hreuse)
    root.inReadingOrder

end Conversion

end DesignComponents
