import DesignComponents.Proofs.Conversion.Creation
import DesignComponents.Proofs.Conversion.Visibility
import DesignComponents.Proofs.Conversion.Visits

/-!
# Components that import themselves

A conversion never refers to a component of the name that it takes from its own root. The file,
however, can be given another name, and that name is not kept out of the references: the file
then imports itself if and only if the store has a component of the name and the rendering comes
to a visible node of the name. The component that is referred to is overwritten in that case.
-/

namespace DesignComponents

namespace Conversion

variable {σ : Type} (store : Store σ) (s : σ) (source : Source) (o : Options) (fileKey : String)

/-- What stands for the layers of a design with this root while the store is as it is. -/
def standing (root : Node) : Layer → Option String :=
  Reuse.standing? (o.reuseFor (componentName root.layer.displayName) (store.catalogue s o))

theorem standing_eq_some_iff {root : Node} {layer : Layer} {name : String} :
    standing store s o root layer = some name ↔
      (o.reuse && o.framework.importsComponents) = true ∧
        componentName layer.displayName = name ∧ name ≠ componentName root.layer.displayName ∧
        store.holds s o.framework name o.extension = true := by
  rw [standing, Options.reuseFor]
  split
  · rename_i hreuse
    rw [Reuse.standing?_eq_some_iff]
    exact (and_iff_right hreuse).symm
  · rename_i hreuse
    constructor
    · intro h
      cases h
    · rintro ⟨h, _⟩
      exact absurd h hreuse

/-- The imports are the components that stand for the visible layers of the nodes come to. -/
theorem mem_imports_iff (root : Node) (name : String) :
    name ∈ (ofRoot source o (store.catalogue s o) fileKey root).1.imports ↔
      ∃ v, Node.Visits (standing store s o root) root.inReadingOrder v ∧ v.visible = true ∧
        standing store s o root v.layer = some name := by
  have hreferences := Node.mem_references_iff_visits (standing store s o root)
    (walkWith store s source o fileKey root).addressOf name root.inReadingOrder
  have helement := element_ofRoot store s source o fileKey root
  rw [imports_ofRoot, List.mem_eraseDups, helement]
  refine hreferences.trans ?_
  simp only [Layer.roleWith_eq_reference_iff]
  exact Iff.rfl

end Conversion

theorem Options.nameFor_eq_or (o : Options) (own : String) :
    o.nameFor own = own ∨ ∃ given ∈ o.nameOverride, o.nameFor own = componentName given := by
  rw [nameFor]
  cases hgiven : o.nameOverride with
  | none => exact .inl rfl
  | some given =>
    by_cases hblank : (trimBlanks given.toList).isEmpty = true
    · exact .inl (if_pos hblank)
    · exact .inr ⟨given, rfl, if_neg hblank⟩

theorem Framework.ne_angular {f : Framework} (hf : f.importsComponents = true) : f ≠ .angular := by
  rintro rfl
  cases hf

theorem Framework.filePath_eq {f : Framework} (hf : f ≠ .angular) (name extension : String) :
    f.filePath name extension = name ++ "." ++ extension := by
  cases f with
  | angular => exact absurd rfl hf
  | html | react | vue => rfl

theorem Framework.filePath_inj {f : Framework} (hf : f ≠ .angular)
    {name name' extension : String} :
    f.filePath name extension = f.filePath name' extension ↔ name = name' := by
  rw [filePath_eq hf, filePath_eq hf, String.append_assoc, String.append_assoc]
  constructor
  · intro h
    have hchars := congrArg String.toList h
    simp only [String.toList_append] at hchars
    exact String.toList_inj.mp (List.append_cancel_right hchars)
  · rintro rfl
    rfl

namespace Component

variable {σ : Type} (store : Store σ) (s : σ) (source : Source) (o : Options) (fileKey id : String)

/-- A component that comes out of a rendering or of a creation. -/
def Made (c : Component) : Prop :=
  (render source o (store.catalogue s o) fileKey id).1 = .ok c ∨
    ∃ path, (store.create source o fileKey id s).1 = .ok (c, path)

theorem exists_root_of_made {c : Component} (h : Made store s source o fileKey id c) :
    ∃ root, source.document fileKey (nodeId id) = .ok root ∧
      ofRoot source o (store.catalogue s o) fileKey root = c := by
  rcases h with hrendered | ⟨path, hcreated⟩
  · exact (render_eq_ok_iff source o _ fileKey id).mp hrendered
  · have hrendered := ((store.create_eq_ok_iff source o fileKey id s).mp hcreated).1
    exact (render_eq_ok_iff source o _ fileKey id).mp hrendered

/-- A file has the path of one of its imports if and only if it has the name of one. -/
theorem path_mem_imports_iff (root : Node) :
    let c := ofRoot source o (store.catalogue s o) fileKey root
    c.file.path ∈ c.imports.map (o.framework.filePath · o.extension) ↔
      c.file.name ∈ c.imports := by
  intro c
  by_cases hreuse : (o.reuse && o.framework.importsComponents) = true
  · have hf : o.framework.importsComponents = true := (Bool.and_eq_true_iff.mp hreuse).2
    simp only [List.mem_map]
    constructor
    · rintro ⟨name, hname, hpath⟩
      have hsame : name = c.file.name := (Framework.filePath_inj (Framework.ne_angular hf)).mp hpath
      rw [← hsame]
      exact hname
    · intro hname
      exact ⟨c.file.name, hname, rfl⟩
  · have hnone : c.imports = [] :=
      (Conversion.independent_of_no_reuse source o (store.catalogue s o) fileKey root hreuse).1
    simp [hnone]

/-- A file imports itself if and only if the name asked for is not that of the design but that of
a component in the store and of a visible node that the rendering comes to. Then, and only then,
it is written over a component that it refers to. -/
theorem own_name_mem_imports_iff {c : Component} (h : Made store s source o fileKey id c) :
    ∃ root, source.document fileKey (nodeId id) = .ok root ∧
      (c.file.name ∈ c.imports ↔
        (∃ given ∈ o.nameOverride, c.file.name = componentName given) ∧
          c.file.name ≠ componentName root.layer.displayName ∧
          (o.reuse && o.framework.importsComponents) = true ∧
          store.holds s o.framework c.file.name o.extension = true ∧
          ∃ v, Node.Visits (Conversion.standing store s o root) root.inReadingOrder v ∧
            v.visible = true ∧ componentName v.layer.displayName = c.file.name) ∧
      (c.file.path ∈ c.imports.map (o.framework.filePath · o.extension) ↔
        c.file.name ∈ c.imports) := by
  obtain ⟨root, hroot, rfl⟩ := exists_root_of_made store s source o fileKey id h
  refine ⟨root, hroot, ?_, path_mem_imports_iff store s source o fileKey root⟩
  have hname := o.nameFor_eq_or (componentName root.layer.displayName)
  rw [← name_file_ofRoot source o (store.catalogue s o) fileKey root] at hname
  refine (Conversion.mem_imports_iff store s source o fileKey root _).trans ?_
  simp only [Conversion.standing_eq_some_iff]
  constructor
  · rintro ⟨v, hv, hvisible, hreuse, hsame, hother, hholds⟩
    have hgiven := hname.resolve_left hother
    exact ⟨hgiven, hother, hreuse, hholds, v, hv, hvisible, hsame⟩
  · rintro ⟨_, hother, hreuse, hholds, v, hv, hvisible, hsame⟩
    exact ⟨v, hv, hvisible, hreuse, hsame, hother, hholds⟩

/-! ## A page that is named like its card -/

def pageWithCard : Node :=
  .mk (Conversion.bareLayer "1:1" "Page" .frame true)
    [.mk (Conversion.bareLayer "1:2" "Card" .frame true) []]

theorem inReadingOrder_pageWithCard : pageWithCard.inReadingOrder = pageWithCard := by
  simp [pageWithCard, Node.inReadingOrder]

def plainReact : Options := ⟨.react, "jsx", true, none⟩

def asCard : Options := { plainReact with nameOverride := some "card" }

def cardShelf : Shelf := ["Card.jsx"]

def pageNamedCard : Component :=
  ofRoot (Conversion.sourceOf pageWithCard) asCard (Shelf.store.catalogue cardShelf asCard) "FILE"
    pageWithCard

theorem made_pageNamedCard :
    Made Shelf.store cardShelf (Conversion.sourceOf pageWithCard) asCard "FILE" "1:1"
      pageNamedCard := by
  exact .inl ((render_eq_ok_iff _ _ _ _ _).mpr ⟨pageWithCard, rfl, rfl⟩)

/-- The file imports the component that it defines. -/
theorem page_named_card_imports_itself :
    Made Shelf.store cardShelf (Conversion.sourceOf pageWithCard) asCard "FILE" "1:1"
        pageNamedCard ∧
      pageNamedCard.file.name ∈ pageNamedCard.imports ∧
      pageNamedCard.file.contents =
        "import Card from \"./Card\";\n\nconst Card = () => \x7b\n  return (\n    " ++
          "<div className=\"\"><Card /></div>\n  );\n\x7d;\n\nexport default Card;\n" := by
  refine ⟨made_pageNamedCard, ?_, ?_⟩
  · decide +kernel
  · decide +kernel

/-- The page comes to a visible node with the name that it is given. -/
theorem page_named_card_visits_card :
    Made Shelf.store cardShelf (Conversion.sourceOf pageWithCard) asCard "FILE" "1:1"
        pageNamedCard ∧
      ∃ v, Node.Visits (Conversion.standing Shelf.store cardShelf asCard pageWithCard)
          pageWithCard.inReadingOrder v ∧
        v.visible = true ∧ componentName v.layer.displayName = pageNamedCard.file.name := by
  refine ⟨made_pageNamedCard, ?_⟩
  obtain ⟨root, hroot, himports, _⟩ := own_name_mem_imports_iff Shelf.store cardShelf
    (Conversion.sourceOf pageWithCard) asCard "FILE" "1:1" made_pageNamedCard
  obtain rfl : pageWithCard = root := Except.ok.inj hroot
  have hown : pageNamedCard.file.name ∈ pageNamedCard.imports := by decide +kernel
  exact (himports.mp hown).2.2.2.2

end Component

end DesignComponents
