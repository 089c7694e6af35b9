import DesignComponents.Proofs.Project.Locations

/-!
# Components that share a file

The paths of two components are the same only if the components are, except where paths are in
kebab case: there they are the same if the names have the same parts, the case of letters aside.
Where the paths are not the same, to write one component leaves the file of the other as it is.
-/

namespace DesignComponents

open FileTree

/-! ## Two paths below one root -/

namespace FileTree

variable {t : FileTree} {here : Place}

theorem exists_below_of_walk_cons {place : Place} {name : String} {names : List String}
    (hname : isDots name = false) (hdown : ".." ∉ names)
    (h : t.walk here (name :: names) = .ok place) : ∃ below, place = here ++ name :: below := by
  obtain ⟨below, hbelow⟩ :=
    Grounded.exists_below_of_walk hdown (walk_cons_of_not_dots hname h)
  exact ⟨below, by rw [hbelow, List.append_assoc]; rfl⟩

/-- A relative path that begins with a name and does not go up behind it. -/
structure StartsWith (path name : String) : Prop where
  relative : Path.isAbsolute path = false
  not_dots : isDots name = false
  parts_eq : ∃ names, Path.parts path = name :: names ∧ ".." ∉ names

theorem StartsWith.exists_below {path name : String} (h : StartsWith path name) {root : String}
    {place : Place} (hfound : t.find here (Path.join root path) = .ok place) :
    ∃ rootPlace below, t.walk (startOf here root) (Path.parts root) = .ok rootPlace ∧
      place = rootPlace ++ name :: below := by
  obtain ⟨names, hparts, hdown⟩ := h.parts_eq
  obtain ⟨rootPlace, hroot, hwalk⟩ := exists_root_of_find_join h.relative hfound
  rw [hparts] at hwalk
  obtain ⟨below, hplace⟩ := exists_below_of_walk_cons h.not_dots hdown hwalk
  exact ⟨rootPlace, below, hroot, hplace⟩

theorem StartsWith.places_ne {path path' name name' : String} (h : StartsWith path name)
    (h' : StartsWith path' name') (hne : name ≠ name') {root : String} {place place' : Place}
    (hfound : t.find here (Path.join root path) = .ok place)
    (hfound' : t.find here (Path.join root path') = .ok place') : place ≠ place' := by
  obtain ⟨rootPlace, below, hroot, rfl⟩ := h.exists_below hfound
  obtain ⟨rootPlace', below', hroot', rfl⟩ := h'.exists_below hfound'
  obtain rfl : rootPlace = rootPlace' := Except.ok.inj (hroot.symm.trans hroot')
  intro hsame
  exact hne (List.cons.inj (List.append_cancel_left hsame)).1

end FileTree

namespace Project

variable (p : Project) {file : ComponentFile} {t : FileTree}

theorem read_write_of_apart {path name name' : String} (hfile : StartsWith file.path name)
    (hpath : StartsWith path name') (hne : name ≠ name') {contents : String}
    (h : (p.runScaffold file t).2.read p.workingPlace (Path.join p.root path) = .ok contents) :
    (p.write file t).2.read p.workingPlace (Path.join p.root path) = .ok contents := by
  obtain ⟨place, hfound, hcontents⟩ := read_eq_ok_iff.mp h
  obtain ⟨hretains, hchanges⟩ := p.write_cases file t
  have hfound' := hretains.find hfound
  have hkept : (p.write file t).2.fileAt? place = (p.runScaffold file t).2.fileAt? place := by
    -- Otherwise the component would be written to the place that the other path leads to.
    by_contra hother
    exact hfile.places_ne hpath hne (hchanges place hother) hfound' rfl
  exact read_eq_ok_iff.mpr ⟨place, hfound', hkept.trans hcontents⟩

end Project

/-! ## The paths of two components -/

namespace Framework

theorem exists_parts_filePath {f : Framework} (hf : f ≠ .angular) (extension : String) :
    ∃ last names, ∀ raw, Path.parts (f.filePath (componentName raw) extension) =
      (componentName raw ++ "." ++ last) :: names := by
  obtain ⟨part, parts, hsplit⟩ :=
    List.exists_cons_of_ne_nil (splitBy_ne_nil (· == '/') extension.toList)
  refine ⟨String.ofList part, (parts.filter (· ≠ [])).map String.ofList, fun raw => ?_⟩
  obtain ⟨⟨hne, hchars⟩, _⟩ := isComponentName_componentName raw
  have hslash : ∀ c ∈ (componentName raw).toList ++ ['.'], (c == '/') = false := by
    intro c hc
    rw [beq_eq_false_iff_ne]
    rintro rfl
    rcases List.mem_append.mp hc with hc | hc
    · exact absurd (hchars '/' hc) (by decide)
    · exact absurd hc (by decide)
  have htoList : (f.filePath (componentName raw) extension).toList =
      (componentName raw).toList ++ ['.'] ++ extension.toList := by
    rw [filePath_eq hf, String.toList_append, String.toList_append]
    rfl
  rw [Path.parts, htoList, splitBy_append_of_forall hslash hsplit,
    List.filter_cons_of_pos (by simp), List.map_cons, String.ofList_append, String.ofList_append,
    String.ofList_toList]

theorem startsWith_of_parts {f : Framework} (hf : f ≠ .angular) {raw extension last : String}
    {names : List String} (hdown : ".." ∉ names)
    (hparts : Path.parts (f.filePath (componentName raw) extension) =
      (componentName raw ++ "." ++ last) :: names) :
    StartsWith (f.filePath (componentName raw) extension) (componentName raw ++ "." ++ last) := by
  refine ⟨?_, ?_, names, hparts, hdown⟩
  · obtain ⟨c, hc, hupper⟩ := head?_componentName_append raw ("." ++ extension)
    rw [filePath_eq hf, String.append_assoc, Path.isAbsolute, hc, beq_eq_false_iff_ne]
    rintro ⟨⟩
    exact absurd hupper (by decide)
  · obtain ⟨c, hc, hupper⟩ := head?_componentName_append raw ("." ++ last)
    rw [← String.append_assoc] at hc
    refine Path.isDots_of_head? hc ?_
    rintro rfl
    exact absurd hupper (by decide)

theorem startsWith_angular (raw extension : String) :
    StartsWith (angular.filePath (componentName raw) extension)
      (kebabCase (componentName raw)) := by
  have hkebab := isKebab_kebabCase raw
  have htemplate := hkebab.isPlainName_append (show '/' ∉ ".component.html".toList by decide)
  obtain ⟨_, hrelative, hparts⟩ := filePath_angular raw extension
  refine ⟨hrelative, hkebab.isPlainName.not_dots, _, hparts, ?_⟩
  rw [List.mem_singleton]
  exact htemplate.ne_dots.symm

section Two

variable (f : Framework) (raw raw' extension : String)

/-- Two components have the same path if and only if they have the same name, or in kebab case if
and only if their names have the same parts, the case of letters aside. -/
theorem filePath_eq_iff :
    f.filePath (componentName raw) extension = f.filePath (componentName raw') extension ↔
      if f = .angular then
        kebabParts (componentName raw).toList = kebabParts (componentName raw').toList
      else componentName raw = componentName raw' := by
  by_cases hf : f = .angular
  · subst hf
    rw [if_pos rfl, ← kebabCase_eq_iff]
    obtain ⟨hpath, _, hparts⟩ := filePath_angular raw extension
    obtain ⟨hpath', _, hparts'⟩ := filePath_angular raw' extension
    constructor
    · intro hsame
      rw [hsame, hparts'] at hparts
      exact (List.cons.inj hparts).1.symm
    · intro hsame
      rw [hpath, hpath', hsame]
  · rw [if_neg hf]
    exact filePath_inj hf

theorem parts_filePath_inj :
    Path.parts (f.filePath (componentName raw) extension) =
        Path.parts (f.filePath (componentName raw') extension) ↔
      f.filePath (componentName raw) extension = f.filePath (componentName raw') extension := by
  refine ⟨fun hsame => ?_, congrArg Path.parts⟩
  by_cases hf : f = .angular
  · subst hf
    obtain ⟨hpath, _, hparts⟩ := filePath_angular raw extension
    obtain ⟨hpath', _, hparts'⟩ := filePath_angular raw' extension
    rw [hparts, hparts'] at hsame
    rw [hpath, hpath', (List.cons.inj hsame).1]
  · obtain ⟨last, names, hparts⟩ := exists_parts_filePath hf extension
    rw [hparts, hparts, List.cons.injEq, ← filePath_eq hf, ← filePath_eq hf] at hsame
    rw [(filePath_inj hf).mp hsame.1]

theorem exists_startsWith_filePath
    (hne : f.filePath (componentName raw) extension ≠ f.filePath (componentName raw') extension)
    (hdown : ".." ∉ Path.parts (f.filePath (componentName raw) extension)) :
    ∃ name name', StartsWith (f.filePath (componentName raw) extension) name ∧
      StartsWith (f.filePath (componentName raw') extension) name' ∧ name ≠ name' := by
  by_cases hf : f = .angular
  · subst hf
    refine ⟨_, _, startsWith_angular raw extension, startsWith_angular raw' extension, ?_⟩
    rw [ne_eq, kebabCase_eq_iff]
    rwa [ne_eq, filePath_eq_iff, if_pos rfl] at hne
  · obtain ⟨last, names, hparts⟩ := exists_parts_filePath hf extension
    have hnames : ".." ∉ names := by
      rw [hparts] at hdown
      exact fun hmem => hdown (List.mem_cons_of_mem _ hmem)
    refine ⟨_, _, startsWith_of_parts hf hnames (hparts raw),
      startsWith_of_parts hf hnames (hparts raw'), ?_⟩
    rw [← filePath_eq hf, ← filePath_eq hf, ne_eq, filePath_inj hf]
    rwa [ne_eq, filePath_inj hf] at hne

end Two

end Framework

/-- Two components have one file if and only if they have one name, or in kebab case if and only
if their names have the same parts, the case of letters aside. If they have one file, each is
written over the other, and if they do not, each leaves the other as it is. -/
theorem Project.share_file_iff (f : Framework) (raw raw' extension : String) :
    let name := componentName raw
    let name' := componentName raw'
    let path := f.filePath name extension
    let path' := f.filePath name' extension
    (path = path' ↔
        if f = .angular then kebabParts name.toList = kebabParts name'.toList else name = name') ∧
      (Path.parts path = Path.parts path' ↔ path = path') ∧
      ∀ (p : Project) (file : ComponentFile) (t : FileTree), file.IsOf f name extension →
        (path ≠ path' → ".." ∉ Path.parts path → ∀ contents,
          (p.runScaffold file t).2.read p.workingPlace (p.pathFor f name' extension) =
              .ok contents →
            (p.write file t).2.read p.workingPlace (p.pathFor f name' extension) =
              .ok contents) ∧
          (path = path' → ∀ written, (p.write file t).1 = .ok written →
            (p.write file t).2.read p.workingPlace (p.pathFor f name' extension) =
              .ok file.contents) := by
  intro name name' path path'
  refine ⟨f.filePath_eq_iff raw raw' extension, f.parts_filePath_inj raw raw' extension, ?_⟩
  intro p file t hfile
  constructor
  · intro hne hdown contents hread
    obtain ⟨first, first', hstart, hstart', hfirst⟩ :=
      f.exists_startsWith_filePath raw raw' extension hne hdown
    exact p.read_write_of_apart (hfile.1 ▸ hstart) hstart' hfirst hread
  · intro hsame written hwritten
    have hread := p.read_write_of_ok hwritten
    rw [hfile.1, show f.filePath name extension = f.filePath name' extension from hsame] at hread
    exact hread

namespace Project

/-! ## Views that are one, and cards that are two -/

/-- The tree once two components of a framework are written, one after the other. -/
def writtenBoth (f : Framework) (raw raw' extension : String) : FileTree :=
  (Component.quietProject.write (f.componentFile (componentName raw') "<hr />" [] extension)
    (Component.quietProject.write (f.componentFile (componentName raw) "<br />" [] extension)
      Component.appTree).2).2

def readIn (t : FileTree) (f : Framework) (raw extension : String) : Except FileError String :=
  t.read Component.quietProject.workingPlace
    (Component.quietProject.pathFor f (componentName raw) extension)

/-- Two names that differ in the case of letters give one file in kebab case, and the second
component is written over the first. An extension that goes up brings two paths to one file. -/
theorem html_views_share_file :
    componentName "HTMLView" ≠ componentName "Htmlview" ∧
      Framework.angular.filePath (componentName "HTMLView") "ts" =
        Framework.angular.filePath (componentName "Htmlview") "ts" ∧
      readIn (writtenBoth .angular "Htmlview" "HTMLView" "ts") .angular "Htmlview" "ts" =
        .ok "<hr />\n" ∧
      Framework.html.filePath (componentName "Card") "/../x" ≠
        Framework.html.filePath (componentName "Menu") "/../x" ∧
      readIn (writtenBoth .html "Card" "Menu" "/../x") .html "Card" "/../x" = .ok "<hr />\n" := by
  refine ⟨by decide +kernel, by decide +kernel, ?_, by decide +kernel, ?_⟩
  · decide +kernel
  · decide +kernel

theorem html_view_is_kept_beside_third :
    let tree := (Component.quietProject.write
      (Framework.angular.componentFile (componentName "Htmlview") "<br />" [] "ts")
      Component.appTree).2
    let second := Framework.angular.componentFile (componentName "HTMLView") "<hr />" [] "ts"
    let third := Framework.angular.componentFile (componentName "Html view") "<hr />" [] "ts"
    second.IsOf .angular (componentName "HTMLView") "ts" ∧
      (Component.quietProject.write second tree).1 = .ok "src/htmlview/htmlview.component.html" ∧
      readIn (Component.quietProject.write second tree).2 .angular "Htmlview" "ts" =
        .ok "<hr />\n" ∧
      third.IsOf .angular (componentName "Html view") "ts" ∧
      ".." ∉ Path.parts third.path ∧
      readIn (Component.quietProject.write third tree).2 .angular "Htmlview" "ts" =
        .ok "<br />\n" := by
  intro tree second third
  have hsecond : second.IsOf .angular (componentName "HTMLView") "ts" := ⟨rfl, rfl⟩
  have hthird : third.IsOf .angular (componentName "Html view") "ts" := ⟨rfl, rfl⟩
  have hwritten : (Component.quietProject.write second tree).1 =
      .ok "src/htmlview/htmlview.component.html" := by
    decide +kernel
  have hdown : ".." ∉ Path.parts third.path := by decide +kernel
  have hbefore : (Component.quietProject.runScaffold third tree).2.read
      Component.quietProject.workingPlace
      (Component.quietProject.pathFor .angular (componentName "Htmlview") "ts") =
        .ok "<br />\n" := by
    decide +kernel
  obtain ⟨hshared, _, hover⟩ := share_file_iff .angular "HTMLView" "Htmlview" "ts"
  obtain ⟨happart, _, hkept⟩ := share_file_iff .angular "Html view" "Htmlview" "ts"
  refine ⟨hsecond, hwritten, ?_, hthird, hdown, ?_⟩
  · exact (hover Component.quietProject second tree hsecond).2 (hshared.mpr (by decide +kernel)) _
      hwritten
  · have hne := mt happart.mp (by decide +kernel)
    exact (hkept Component.quietProject third tree hthird).1 hne hdown _ hbefore

end Project

end DesignComponents
