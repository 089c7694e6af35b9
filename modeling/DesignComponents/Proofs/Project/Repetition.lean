import DesignComponents.Proofs.Component.Identifier
import DesignComponents.Proofs.Conversion.Undisturbed
import DesignComponents.Proofs.Project.Grounded
import DesignComponents.Proofs.Project.Sessions

/-!
# Creations that are repeated

Once a component is created its own file is in the store. As no layer is ever replaced by a
component of the name of the root, the next creation from the same design finds the same components
and writes the same file. A root or an extension that goes up, however, can lead through a
directory that only the first creation brings about, and then the second one finds more.
-/

namespace DesignComponents

open FileTree

/-! ## Stores whose files do not disturb each other -/

def ComponentFile.IsOf (file : ComponentFile) (f : Framework) (name extension : String) : Prop :=
  file.path = f.filePath name extension ∧ file.scaffold = f.scaffold? name

theorem ComponentFile.IsOf.no_scaffold {file : ComponentFile} {f : Framework}
    {name extension : String} (h : file.IsOf f name extension)
    (hf : f.importsComponents = true) : file.scaffold = none :=
  h.2.trans (Framework.scaffold?_eq_none (Framework.ne_angular hf) name)

/-- In sound states to write the file of a component changes nothing for components of other
names. Once it is written the store holds it, and it can be written again. -/
structure Store.Separate {σ : Type} (store : Store σ) (f : Framework) (extension : String)
    (Sound : σ → Prop) : Prop where
  sound : ∀ s file name, file.IsOf f (componentName name) extension → Sound s →
    Sound (store.write s f file).2
  apart : ∀ s file name other, file.IsOf f (componentName name) extension → Sound s →
    componentName other ≠ componentName name →
      store.holds (store.write s f file).2 f (componentName other) extension =
        store.holds s f (componentName other) extension
  held : ∀ s file name path, file.IsOf f (componentName name) extension → Sound s →
    (store.write s f file).1 = .ok path →
      store.holds (store.write s f file).2 f (componentName name) extension = true
  again : ∀ s file name path, file.IsOf f (componentName name) extension → Sound s →
    (store.write s f file).1 = .ok path →
      (store.write (store.write s f file).2 f file).1 = .ok path

theorem Shelf.separate_store {f : Framework} (hf : f.importsComponents = true)
    (extension : String) : Shelf.store.Separate f extension fun _ => True where
  sound _ _ _ _ _ := trivial
  apart shelf file name other hfile _ hother := by
    have hpath : f.filePath (componentName other) extension ≠ file.path := by
      rw [hfile.1]
      exact fun heq => hother ((Framework.filePath_inj (Framework.ne_angular hf)).mp heq)
    rw [Bool.eq_iff_iff]
    change (if shelf.contains file.path then shelf else shelf ++ [file.path]).contains _ = true ↔
      shelf.contains _ = true
    split
    · exact Iff.rfl
    · rw [List.contains_iff_mem, List.contains_iff_mem, List.mem_append, List.mem_singleton]
      exact or_iff_left hpath
  held shelf file name path hfile _ _ := by
    change (if shelf.contains file.path then shelf else shelf ++ [file.path]).contains _ = true
    rw [← hfile.1]
    split
    · rename_i hthere
      exact hthere
    · rw [List.contains_iff_mem]
      exact List.mem_append_right _ (List.mem_singleton_self _)
  again _ _ _ _ _ _ hwritten := hwritten

theorem Framework.isPlainName_filePath {f : Framework} (hf : f ≠ .angular)
    {extension : String} (hextension : '/' ∉ extension.toList) (name : String) :
    Path.IsPlainName (f.filePath (componentName name) extension) := by
  obtain ⟨⟨_, halphanum⟩, _⟩ := isComponentName_componentName name
  rw [filePath_eq hf, String.append_assoc]
  obtain ⟨first, hfirst, hupper⟩ := head?_componentName_append name ("." ++ extension)
  have hslash : '/' ∉ (componentName name ++ ("." ++ extension)).toList := by
    rw [String.toList_append, String.toList_append, List.mem_append, List.mem_append]
    rintro (hslash | hslash | hslash)
    · exact absurd (halphanum '/' hslash) (by decide)
    · exact absurd hslash (by decide)
    · exact hextension hslash
  have hdot : first ≠ '.' := by
    rintro rfl
    exact absurd hupper (by decide)
  exact Path.isPlainName_of_head? hslash hfirst hdot

/-- The files of a project do not disturb each other below a steady root. -/
theorem Project.separate_store (p : Project) {f : Framework} (hf : f.importsComponents = true)
    {extension : String} (hextension : '/' ∉ extension.toList) :
    p.store.Separate f extension fun t => t.Grounded ∧ t.IsSteady p.workingPlace p.root where
  sound t _ _ hfile ht := by
    have hscaffold := hfile.no_scaffold hf
    have hretains := p.retains_write_of_no_scaffold (t := t) hscaffold
    exact ⟨p.grounded_write hscaffold ht.1, ht.2.of_retains hretains⟩
  apart t file name other hfile ht hother := by
    have hplain := Framework.isPlainName_filePath (Framework.ne_angular hf) hextension
    refine p.isFile_write (hfile.no_scaffold hf) ht.1 ht.2 ?_ (hplain other) ?_
    · rw [hfile.1]
      exact hplain name
    · rw [hfile.1]
      exact fun heq => hother ((Framework.filePath_inj (Framework.ne_angular hf)).mp heq)
  held _ file name _ hfile _ hwritten := by
    have hheld := p.isFile_of_written (hfile.no_scaffold hf) hwritten
    rw [hfile.1] at hheld
    exact hheld
  again _ file name _ hfile _ hwritten := by
    refine p.write_again (hfile.no_scaffold hf) ?_ hwritten
    rw [hfile.1]
    exact Framework.isPlainName_filePath (Framework.ne_angular hf) hextension name

theorem Store.Separate.added {σ : Type} {store : Store σ} {o : Options} {Sound : σ → Prop}
    (hstore : store.Separate o.framework o.extension Sound)
    (hf : o.framework.importsComponents = true) {s : σ} (hs : Sound s) {file : ComponentFile}
    {raw path : String} (hfile : file.IsOf o.framework (componentName raw) o.extension)
    (hwritten : (store.write s o.framework file).1 = .ok path) :
    store.Added o (componentName raw) s (store.write s o.framework file).2 := by
  intro other
  rw [Framework.filePath_inj (Framework.ne_angular hf)]
  by_cases hother : componentName other = componentName raw
  · rw [hother]
    exact iff_of_true (hstore.held s file raw path hfile hs hwritten) (.inr rfl)
  · rw [hstore.apart s file raw other hfile hs hother]
    exact (or_iff_left hother).symm

/-! ## The same creation again and again -/

/-- No name is asked for, or none but blanks. -/
def Options.Unnamed (o : Options) : Prop :=
  ∀ name ∈ o.nameOverride, (trimBlanks name.toList).isEmpty = true

theorem Options.Unnamed.nameFor_eq {o : Options} (h : o.Unnamed) (own : String) :
    o.nameFor own = own := by
  rw [nameFor]
  cases hname : o.nameOverride with
  | none => rfl
  | some name => exact if_pos (h name hname)

theorem Component.isOf_file_ofRoot {o : Options} (hname : o.Unnamed) (source : Source)
    (catalogue : Catalogue) (fileKey : String) (root : Node) :
    (ofRoot source o catalogue fileKey root).file.IsOf o.framework
      (componentName root.layer.displayName) o.extension := by
  have hown := name_file_ofRoot source o catalogue fileKey root
  rw [hname.nameFor_eq] at hown
  rw [← hown]
  exact ⟨rfl, rfl⟩

/-! ## Roots and extensions that go up -/

namespace Project

/-- A root that goes up through a directory that is not there. -/
def climbingProject : Project := ⟨[], ".", "a/../b", Programs.none⟩

def menuProject : Project := ⟨[], ".", "b", Programs.none⟩

def cardBeside : FileTree := ⟨[(["b"], .directory), (["b", "Card.jsx"], .file "")]⟩

def folderBeside : FileTree := ⟨[(["b"], .directory), (["b", "Card.x"], .directory)]⟩

theorem grounded_empty : FileTree.empty.Grounded := by
  intro place name hname
  rw [entry?_of_ne_nil _ (by simp)] at hname
  cases hname

theorem grounded_beside (name : String) (entry : FileEntry) :
    ((FileTree.empty.put ["b"] .directory).put ["b", name] entry).Grounded := by
  have hroot : FileTree.empty.entry? [] = some .directory := rfl
  have hbase : (FileTree.empty.put ["b"] .directory).Grounded :=
    grounded_empty.put hroot fun _ => rfl
  have hbelow : entry? (FileTree.empty.put ["b"] .directory) ["b"] = some .directory := rfl
  refine hbase.put hbelow fun hdirectory => ?_
  rw [entry?_put _ (by decide), if_neg (by simp)] at hdirectory
  cases hdirectory

end Project

namespace Store

variable {σ : Type} (store : Store σ) (source : Source) (o : Options) (fileKey id : String) (s : σ)

/-- The store after a creation was repeated so many times. -/
def after : Nat → σ
  | 0 => s
  | n + 1 => (store.create source o fileKey id (after n)).2.2

variable {store o s}

theorem ofRoot_of_same_others {s' : σ} {root : Node}
    (h : ∀ other, componentName other ≠ componentName root.layer.displayName →
      store.holds s' o.framework (componentName other) o.extension =
        store.holds s o.framework (componentName other) o.extension) :
    Component.ofRoot source o (store.catalogue s' o) fileKey root =
      Component.ofRoot source o (store.catalogue s o) fileKey root := by
  -- The own name of the root may have come to be held, but no layer is replaced by it.
  have hconversion : (Conversion.ofRoot source o (store.catalogue s' o) fileKey root).1 =
      (Conversion.ofRoot source o (store.catalogue s o) fileKey root).1 :=
    Conversion.ofRoot_congr source fileKey fun v _ _ =>
      Conversion.standing_congr fun _ => h v.layer.displayName
  rw [Component.ofRoot, Component.ofRoot, hconversion]

variable {Sound : σ → Prop} {root : Node}

/-- However often a creation is repeated, the components of other names stay as they are. -/
theorem after_spec (hstore : store.Separate o.framework o.extension Sound) (hs : Sound s)
    (hname : o.Unnamed) (hroot : source.document fileKey (nodeId id) = .ok root) (n : Nat) :
    Sound (store.after source o fileKey id s n) ∧
      ∀ other, componentName other ≠ componentName root.layer.displayName →
        store.holds (store.after source o fileKey id s n) o.framework (componentName other)
            o.extension =
          store.holds s o.framework (componentName other) o.extension := by
  induction n with
  | zero => exact ⟨hs, fun _ _ => rfl⟩
  | succ n ih =>
    obtain ⟨hsound, hothers⟩ := ih
    have hrendered := (Component.render_eq_ok_iff source o
      (store.catalogue (store.after source o fileKey id s n) o) fileKey id).mpr ⟨root, hroot, rfl⟩
    have hfile := Component.isOf_file_ofRoot hname source
      (store.catalogue (store.after source o fileKey id s n) o) fileKey root
    rw [after, store.create_of_ok source o fileKey id _ hrendered]
    refine ⟨hstore.sound _ _ _ hfile hsound, fun other hother => ?_⟩
    exact (hstore.apart _ _ _ other hfile hsound hother).trans (hothers other hother)

theorem render_after (hstore : store.Separate o.framework o.extension Sound) (hs : Sound s)
    (hname : o.Unnamed) (n : Nat) :
    (Component.render source o (store.catalogue (store.after source o fileKey id s n) o)
        fileKey id).1 =
      (Component.render source o (store.catalogue s o) fileKey id).1 := by
  cases hfetched : source.document fileKey (nodeId id) with
  | error e =>
    rw [Component.render_of_error _ _ _ _ _ hfetched, Component.render_of_error _ _ _ _ _ hfetched]
  | ok root =>
    obtain ⟨_, hothers⟩ := after_spec source fileKey id hstore hs hname hfetched n
    rw [Component.render_of_ok _ _ _ _ _ hfetched, Component.render_of_ok _ _ _ _ _ hfetched]
    exact congrArg Except.ok (ofRoot_of_same_others source fileKey hothers)

theorem after_succ_of_ok {n : Nat} {c : Component} {path : String}
    (h : (store.create source o fileKey id (store.after source o fileKey id s n)).1 =
      .ok (c, path)) :
    (store.write (store.after source o fileKey id s n) o.framework c.file).1 = .ok path ∧
      store.after source o fileKey id s (n + 1) =
        (store.write (store.after source o fileKey id s n) o.framework c.file).2 := by
  obtain ⟨hrendered, hwritten⟩ := (store.create_eq_ok_iff source o fileKey id _).mp h
  rw [after, store.create_of_ok source o fileKey id _ hrendered]
  exact ⟨hwritten, rfl⟩

theorem create_after (hstore : store.Separate o.framework o.extension Sound) (hs : Sound s)
    (hname : o.Unnamed) {c : Component} {path : String}
    (hcreated : (store.create source o fileKey id s).1 = .ok (c, path)) (n : Nat) :
    (store.create source o fileKey id (store.after source o fileKey id s n)).1 = .ok (c, path) ∧
      (0 < n → store.holds (store.after source o fileKey id s n) o.framework c.file.name
        o.extension = true) := by
  obtain ⟨hrendered, _⟩ := (store.create_eq_ok_iff source o fileKey id s).mp hcreated
  obtain ⟨root, hroot, rfl⟩ := (Component.render_eq_ok_iff source o _ fileKey id).mp hrendered
  have hfile := Component.isOf_file_ofRoot hname source (store.catalogue s o) fileKey root
  have hown := Component.name_file_ofRoot source o (store.catalogue s o) fileKey root
  rw [hname.nameFor_eq] at hown
  induction n with
  | zero => exact ⟨hcreated, fun h => absurd h (Nat.lt_irrefl 0)⟩
  | succ n ih =>
    obtain ⟨hsound, _⟩ := after_spec source fileKey id hstore hs hname hroot n
    -- Creation `n` wrote this file, so it is held now and can be written once more.
    obtain ⟨hlast, hstate⟩ := after_succ_of_ok source fileKey id ih.1
    have hagain := hstore.again _ _ _ _ hfile hsound hlast
    have hheld := hstore.held _ _ _ _ hfile hsound hlast
    rw [← hstate] at hagain hheld
    have hnext := (render_after source fileKey id hstore hs hname (n + 1)).trans hrendered
    refine ⟨(store.create_eq_ok_iff source o fileKey id _).mpr ⟨hnext, hagain⟩, fun _ => ?_⟩
    rw [hown]
    exact hheld

/-- What is written to a store in this state is found in it besides what was found before. As
often as a creation without a name of its own is repeated, the same is rendered, and if it was
created at first the same component is written to the same path, where it is found. -/
structure Repeatable (store : Store σ) (source : Source) (o : Options) (fileKey id : String)
    (s : σ) : Prop where
  added : ∀ file raw path, file.IsOf o.framework (componentName raw) o.extension →
    (store.write s o.framework file).1 = .ok path →
      store.Added o (componentName raw) s (store.write s o.framework file).2
  rendered : o.Unnamed → ∀ n,
    (Component.render source o (store.catalogue (store.after source o fileKey id s n) o)
        fileKey id).1 =
      (Component.render source o (store.catalogue s o) fileKey id).1
  created : o.Unnamed → ∀ c path, (store.create source o fileKey id s).1 = .ok (c, path) → ∀ n,
    (store.create source o fileKey id (store.after source o fileKey id s n)).1 = .ok (c, path)
  held : o.Unnamed → ∀ c path, (store.create source o fileKey id s).1 = .ok (c, path) → ∀ n,
    store.holds (store.after source o fileKey id s (n + 1)) o.framework c.file.name
      o.extension = true

theorem Separate.repeatable (hstore : store.Separate o.framework o.extension Sound)
    (hf : o.framework.importsComponents = true) (hs : Sound s) :
    store.Repeatable source o fileKey id s where
  added _ _ _ hfile hwritten := hstore.added hf hs hfile hwritten
  rendered hname n := render_after source fileKey id hstore hs hname n
  created hname _ _ hcreated n := (create_after source fileKey id hstore hs hname hcreated n).1
  held hname _ _ hcreated n :=
    (create_after source fileKey id hstore hs hname hcreated (n + 1)).2 (Nat.succ_pos n)

theorem Repeatable.read_after {p : Project} {t : FileTree}
    (h : p.store.Repeatable source o fileKey id t) (hname : o.Unnamed) {c : Component}
    {path : String} (hcreated : (p.store.create source o fileKey id t).1 = .ok (c, path))
    (n : Nat) :
    (p.store.after source o fileKey id t (n + 1)).read p.workingPlace path =
      .ok c.file.contents := by
  obtain ⟨hwritten, hstate⟩ :=
    after_succ_of_ok source fileKey id (h.created hname c path hcreated n)
  have hread := p.read_write_of_ok hwritten
  rw [← (p.write_of_ok hwritten).1] at hread
  rw [hstate]
  exact hread

/-- A component that is added to a store makes no difference to a conversion, which comes to the
same nodes, if it has the name of the root or of no visible node come to. So a creation can be
repeated on every shelf, and in every project whose root is steady if the extension holds no
slash: there the file has the same contents each time. -/
theorem reruns_and_strangers_change_nothing (source : Source) (o : Options) (fileKey id : String) :
    (∀ {τ : Type} (store : Store τ) (s s' : τ) (root : Node) (name : String),
      store.Added o name s s' →
        (name = componentName root.layer.displayName ∨
          ∀ v, Node.Visits (Conversion.standing store s o root) root.inReadingOrder v →
            v.visible = true → componentName v.layer.displayName ≠ name) →
          (Conversion.ofRoot source o (store.catalogue s' o) fileKey root).1 =
              (Conversion.ofRoot source o (store.catalogue s o) fileKey root).1 ∧
            ∀ v, Node.Visits (Conversion.standing store s' o root) root.inReadingOrder v ↔
              Node.Visits (Conversion.standing store s o root) root.inReadingOrder v) ∧
      (o.framework.importsComponents = true →
        (∀ shelf, Shelf.store.Repeatable source o fileKey id shelf) ∧
          ∀ (p : Project) (t : FileTree), '/' ∉ o.extension.toList → t.Grounded →
            t.IsSteady p.workingPlace p.root →
              p.store.Repeatable source o fileKey id t ∧
                (o.Unnamed → ∀ c path, (p.store.create source o fileKey id t).1 = .ok (c, path) →
                  ∀ n, (p.store.after source o fileKey id t (n + 1)).read p.workingPlace path =
                    .ok c.file.contents)) := by
  refine ⟨fun store s s' root name hadded hname => ?_, fun hf => ⟨fun shelf => ?_, ?_⟩⟩
  · exact Conversion.ofRoot_of_added source fileKey hadded hname
  · exact (Shelf.separate_store hf o.extension).repeatable source fileKey id hf trivial
  · intro p t hextension ht hroot
    have hrepeatable :=
      (p.separate_store hf hextension).repeatable source fileKey id hf ⟨ht, hroot⟩
    exact ⟨hrepeatable, fun hname c path hcreated n =>
      hrepeatable.read_after source fileKey id hname hcreated n⟩

/-! ## Pages that are created again -/

section Page

open Component (pageWithCard inReadingOrder_pageWithCard plainReact cardShelf)

theorem unnamed_plainReact : plainReact.Unnamed := by
  intro name hname
  cases hname

theorem no_footer_visited {v : Node}
    (hv : Node.Visits (Conversion.standing Shelf.store cardShelf plainReact pageWithCard)
      pageWithCard.inReadingOrder v) :
    componentName v.layer.displayName ≠ "Footer" := by
  rw [inReadingOrder_pageWithCard] at hv
  rcases (Node.visits_iff _ _ _).mp hv with rfl | ⟨card, hcard, hv⟩
  · decide +kernel
  · have hrole : (Conversion.bareLayer "1:1" "Page" .frame true).roleWith
        (Conversion.standing Shelf.store cardShelf plainReact pageWithCard) = .container := by
      decide +kernel
    rw [pageWithCard, Node.entered, ← pageWithCard, hrole] at hcard
    obtain rfl := List.mem_singleton.mp hcard
    rcases (Node.visits_iff _ _ _).mp hv with rfl | ⟨inner, hinner, _⟩
    · decide +kernel
    · rw [Node.entered] at hinner
      split at hinner <;> cases hinner

def convertPage (shelf : Shelf) : Conversion :=
  (Conversion.ofRoot (Conversion.sourceOf pageWithCard) plainReact
    (Shelf.store.catalogue shelf plainReact) "FILE" pageWithCard).1

/-- The page as it is made where the store is in this state. -/
def pageFor (store : Store σ) (o : Options) (s : σ) : Component :=
  Component.ofRoot (Conversion.sourceOf pageWithCard) o (store.catalogue s o) "FILE" pageWithCard

def createPage (store : Store σ) (o : Options) (s : σ) : Except Failure (Component × String) :=
  (store.create (Conversion.sourceOf pageWithCard) o "FILE" "1:1" s).1

/-- The store once the page was created so many times. -/
def afterPage (store : Store σ) (o : Options) (s : σ) : Nat → σ :=
  store.after (Conversion.sourceOf pageWithCard) o "FILE" "1:1" s

theorem createPage_of_written {store : Store σ} {o : Options} {s : σ} {path : String}
    (h : (store.write s o.framework (pageFor store o s).file).1 = .ok path) :
    createPage store o s = .ok (pageFor store o s, path) := by
  have hrendered := (Component.render_eq_ok_iff (Conversion.sourceOf pageWithCard) o
    (store.catalogue s o) "FILE" "1:1").mpr ⟨pageWithCard, rfl, rfl⟩
  exact (store.create_eq_ok_iff _ _ _ _ _).mpr ⟨hrendered, h⟩

def reactPage (imports content : String) : String :=
  imports ++ "const Page = () => \x7b\n  return (\n    <div className=\"\">" ++ content ++
    "</div>\n  );\n\x7d;\n\nexport default Page;\n"

/-- The page is converted as if there were no footer. On a shelf and in a project it is created the
third time like the first. -/
theorem page_is_created_again :
    (∀ v, Node.Visits (Conversion.standing Shelf.store cardShelf plainReact pageWithCard)
        pageWithCard.inReadingOrder v → componentName v.layer.displayName ≠ "Footer") ∧
      convertPage (cardShelf ++ ["Footer.jsx"]) = convertPage cardShelf ∧
      plainReact.Unnamed ∧
      (pageFor Shelf.store plainReact cardShelf).imports = ["Card"] ∧
      (∀ n, createPage Shelf.store plainReact (afterPage Shelf.store plainReact cardShelf n) =
        .ok (pageFor Shelf.store plainReact cardShelf, "store/Page.jsx")) ∧
      afterPage Shelf.store plainReact cardShelf 2 = ["Card.jsx", "Page.jsx"] ∧
      Project.cardBeside.Grounded ∧ Project.cardBeside.IsSteady [] "b" ∧
      (∀ n, createPage Project.menuProject.store plainReact
          (afterPage Project.menuProject.store plainReact Project.cardBeside n) =
        .ok (pageFor Project.menuProject.store plainReact Project.cardBeside, "b/Page.jsx")) ∧
      (afterPage Project.menuProject.store plainReact Project.cardBeside 3).read [] "b/Page.jsx" =
        .ok (reactPage "import Card from \"./Card\";\n\n" "<Card />") := by
  have hsteady : Project.cardBeside.IsSteady [] "b" := .inl (by decide +kernel)
  obtain ⟨hstranger, hrepeated⟩ := reruns_and_strangers_change_nothing
    (Conversion.sourceOf pageWithCard) plainReact "FILE" "1:1"
  obtain ⟨hshelf, hproject⟩ := hrepeated rfl
  obtain ⟨hsame, _⟩ := hstranger Shelf.store cardShelf _ pageWithCard "Footer"
    (cardShelf.added_append plainReact "Footer") (.inr fun v hv _ => no_footer_visited hv)
  obtain ⟨hagain, hread⟩ := hproject Project.menuProject Project.cardBeside (by decide)
    (Project.grounded_beside _ _) hsteady
  have hfirst : createPage Shelf.store plainReact cardShelf =
      .ok (pageFor Shelf.store plainReact cardShelf, "store/Page.jsx") :=
    createPage_of_written (congrArg Except.ok (by decide +kernel))
  have hfirstIn : createPage Project.menuProject.store plainReact Project.cardBeside =
      .ok (pageFor Project.menuProject.store plainReact Project.cardBeside, "b/Page.jsx") :=
    createPage_of_written (by decide +kernel)
  have hcontents := hread unnamed_plainReact _ _ hfirstIn 2
  have htext : (pageFor Project.menuProject.store plainReact Project.cardBeside).file.contents =
      reactPage "import Card from \"./Card\";\n\n" "<Card />" := by
    decide +kernel
  refine ⟨fun v hv => no_footer_visited hv, hsame, unnamed_plainReact, by decide +kernel,
    (hshelf cardShelf).created unnamed_plainReact _ _ hfirst, by decide +kernel,
    Project.grounded_beside _ _, hsteady, hagain.created unnamed_plainReact _ _ hfirstIn, ?_⟩
  rw [← htext]
  exact hcontents

def menuReact : Options := { plainReact with extension := "x/../Menu.jsx" }

def writtenPage (p : Project) (o : Options) (t : FileTree) :
    Option (String × List String × String) :=
  (createPage p.store o t).toOption.map fun (c, path) => (path, c.imports, c.file.contents)

/-- The first page brings about a directory, through which the root goes up or the extension, and
the second one finds the card. -/
theorem climbing_page_changes :
    plainReact.Unnamed ∧ menuReact.Unnamed ∧ Project.cardBeside.Grounded ∧
      Project.folderBeside.Grounded ∧
      writtenPage Project.climbingProject plainReact Project.cardBeside =
        some ("a/../b/Page.jsx", [], reactPage "" "<div className=\"\"></div>") ∧
      writtenPage Project.climbingProject plainReact
          (afterPage Project.climbingProject.store plainReact Project.cardBeside 1) =
        some ("a/../b/Page.jsx", ["Card"],
          reactPage "import Card from \"./Card\";\n\n" "<Card />") ∧
      writtenPage Project.menuProject menuReact Project.folderBeside =
        some ("b/Page.x/../Menu.jsx", [], reactPage "" "<div className=\"\"></div>") ∧
      writtenPage Project.menuProject menuReact
          (afterPage Project.menuProject.store menuReact Project.folderBeside 1) =
        some ("b/Page.x/../Menu.jsx", ["Card"],
          reactPage "import Card from \"./Card\";\n\n" "<Card />") := by
  refine ⟨unnamed_plainReact, unnamed_plainReact, Project.grounded_beside _ _,
    Project.grounded_beside _ _, ?_, ?_, ?_, ?_⟩
  · decide +kernel
  · decide +kernel
  · decide +kernel
  · decide +kernel

end Page

end Store

end DesignComponents
