import DesignComponents.Proofs.Component.Parts
import DesignComponents.Proofs.Project.Repetition

/-!
# Where components are written

Whatever a component is called, its path is made of one or two plain names, and no argument of the
command that lays its ground can be taken for an option. All that is written goes to where the
root leads and then to these names.
-/

namespace DesignComponents

open FileTree Element

/-! ## Relative paths below a root -/

namespace FileTree

variable {t : FileTree} {here place : Place}

theorem walk_of_find {path : String} (h : t.find here path = .ok place) :
    t.walk (startOf here path) (Path.parts path) = .ok place := by
  obtain ⟨_, _, h⟩ := bind_eq_ok_iff.mp h
  by_cases hslash : asksForDirectory path = true
  · rw [if_pos hslash] at h
    obtain ⟨last, hwalk, hdirectory⟩ := bind_eq_ok_iff.mp h
    obtain ⟨_, rfl⟩ := directoryAt_eq_ok_iff.mp hdirectory
    exact hwalk
  · rwa [if_neg hslash] at h

/-- A relative path below a root leads where it leads from the place of the root. -/
theorem exists_root_of_find_join {root path : String} (hpath : Path.isAbsolute path = false)
    (h : t.find here (Path.join root path) = .ok place) :
    ∃ rootPlace, t.walk (startOf here root) (Path.parts root) = .ok rootPlace ∧
      t.walk rootPlace (Path.parts path) = .ok place := by
  have hwalk := walk_of_find h
  rw [startOf, Path.isAbsolute_join hpath, Path.parts_join hpath, walk_append] at hwalk
  exact bind_eq_ok_iff.mp hwalk

theorem walk_cons_of_not_dots {name : String} (hname : isDots name = false) {names : List String}
    (h : t.walk here (name :: names) = .ok place) : t.walk (here ++ [name]) names = .ok place := by
  rw [isDots, Bool.or_eq_false_iff, beq_eq_false_iff_ne, beq_eq_false_iff_ne] at hname
  rw [walk_cons (directory_of_walk_cons h), if_neg hname.1, if_neg hname.2] at h
  obtain ⟨_, _, h⟩ := bind_eq_ok_iff.mp h
  exact h

theorem eq_append_of_walk {names : List String} (hnames : ∀ name ∈ names, isDots name = false)
    (h : t.walk here names = .ok place) : place = here ++ names := by
  induction names generalizing here with
  | nil =>
    obtain rfl := Except.ok.inj h
    exact (List.append_nil _).symm
  | cons name names ih =>
    obtain ⟨hname, hnames⟩ := List.forall_mem_cons.mp hnames
    rw [ih hnames (walk_cons_of_not_dots hname h), List.append_assoc]
    rfl

end FileTree

/-- A file whose path is made of plain names is written to these names below the place of the
root. -/
theorem Project.place_of_written (p : Project) {file : ComponentFile} {t : FileTree}
    (hpath : Path.isAbsolute file.path = false)
    (hparts : ∀ name ∈ Path.parts file.path, isDots name = false) {place : Place}
    (h : (p.write file t).2.fileAt? place ≠ (p.runScaffold file t).2.fileAt? place) :
    ∃ rootPlace,
      (p.write file t).2.walk (startOf p.workingPlace p.root) (Path.parts p.root) = .ok rootPlace ∧
        place = rootPlace ++ Path.parts file.path := by
  have hfound := (p.write_cases file t).2 place h
  obtain ⟨rootPlace, hroot, hwalk⟩ := exists_root_of_find_join hpath hfound
  exact ⟨rootPlace, hroot, eq_append_of_walk hparts hwalk⟩

/-! ## The path of a component -/

namespace IsKebab

variable {name : String} (h : IsKebab name.toList)
include h

/-- With anything behind it that holds no slash, a name in kebab case is plain. -/
theorem isPlainName_append {more : String} (hmore : '/' ∉ more.toList) :
    Path.IsPlainName (name ++ more) := by
  obtain ⟨c, hc, hlower⟩ := h.exists_head
  have hslash : '/' ∉ (name ++ more).toList := by
    rw [String.toList_append, List.mem_append, not_or]
    refine ⟨fun hmem => ?_, hmore⟩
    exact absurd (h.isLower_or_isDigit hmem (by decide)) (by decide)
  have hhead : (name ++ more).toList.head? = some c := by
    rw [String.toList_append, List.head?_append, hc]
    rfl
  have hdot : c ≠ '.' := by
    rintro rfl
    exact absurd hlower (by decide)
  exact Path.isPlainName_of_head? hslash hhead hdot

theorem isPlainName : Path.IsPlainName name := by
  have happend := h.isPlainName_append (show '/' ∉ "".toList by decide)
  rwa [String.append_empty] at happend

end IsKebab

namespace Framework

/-- The path of a template has two plain names. -/
theorem filePath_angular (raw extension : String) :
    let k := kebabCase (componentName raw)
    angular.filePath (componentName raw) extension = k ++ "/" ++ (k ++ ".component.html") ∧
      Path.isAbsolute (angular.filePath (componentName raw) extension) = false ∧
      Path.parts (angular.filePath (componentName raw) extension) = [k, k ++ ".component.html"] := by
  intro k
  have hkebab : IsKebab k.toList := isKebab_kebabCase raw
  have htemplate := hkebab.isPlainName_append (show '/' ∉ ".component.html".toList by decide)
  change Path.join k (k ++ ".component.html") = _ ∧ Path.isAbsolute (Path.join k _) = false ∧
    Path.parts (Path.join k _) = _
  refine ⟨Path.join_of_isPlainName hkebab.isPlainName htemplate.isAbsolute_eq, ?_, ?_⟩
  · rw [Path.isAbsolute_join htemplate.isAbsolute_eq, hkebab.isPlainName.isAbsolute_eq]
  · rw [Path.parts_join_name htemplate, hkebab.isPlainName.parts_eq]
    rfl

theorem slash_notMem_extension (f : Framework) (typescript : Bool) :
    '/' ∉ (f.extension typescript).toList := by
  cases f <;> cases typescript <;> decide

theorem plain_filePath (f : Framework) {extension : String}
    (hextension : '/' ∉ extension.toList) (raw : String) :
    Path.isAbsolute (f.filePath (componentName raw) extension) = false ∧
      ∀ name ∈ Path.parts (f.filePath (componentName raw) extension), Path.IsPlainName name := by
  by_cases hf : f = .angular
  · subst hf
    have hkebab := isKebab_kebabCase raw
    obtain ⟨_, hrelative, hparts⟩ := filePath_angular raw extension
    refine ⟨hrelative, ?_⟩
    rw [hparts, List.forall_mem_cons, List.forall_mem_singleton]
    exact ⟨hkebab.isPlainName, hkebab.isPlainName_append (by decide)⟩
  · have hplain := isPlainName_filePath hf hextension raw
    refine ⟨hplain.isAbsolute_eq, ?_⟩
    rw [hplain.parts_eq, List.forall_mem_singleton]
    exact hplain

theorem head?_argument_ne_hyphen (f : Framework) (raw : String) :
    ∀ scaffold ∈ f.scaffold? (componentName raw), ∀ argument ∈ scaffold.arguments,
      argument.toList.head? ≠ some '-' := by
  intro scaffold hscaffold
  cases f with
  | html | react | vue => cases hscaffold
  | angular =>
    obtain rfl := Option.some.inj hscaffold
    rw [List.forall_mem_cons, List.forall_mem_cons, List.forall_mem_singleton]
    refine ⟨by decide, by decide, ?_⟩
    obtain ⟨c, hc, hlower⟩ := (isKebab_kebabCase raw).exists_head
    rw [hc]
    rintro ⟨⟩
    exact absurd hlower (by decide)

end Framework

namespace Component

variable {σ : Type} (store : Store σ) (s : σ) (source : Source) (o : Options) (fileKey id : String)

theorem isOf_file_of_made {c : Component} (h : Made store s source o fileKey id c) :
    ∃ raw, c.file.name = componentName raw ∧
      c.file.IsOf o.framework (componentName raw) o.extension := by
  obtain ⟨root, _, rfl⟩ := exists_root_of_made store s source o fileKey id h
  have hname := name_file_ofRoot source o (store.catalogue s o) fileKey root
  rcases o.nameFor_eq_or (componentName root.layer.displayName) with hown | ⟨given, _, hgiven⟩
  · rw [hown] at hname
    exact ⟨_, hname, hname ▸ ⟨rfl, rfl⟩⟩
  · rw [hgiven] at hname
    exact ⟨given, hname, hname ▸ ⟨rfl, rfl⟩⟩

/-- Whatever a component is called, its file is written below the root under plain names, and the
command that lays its ground takes no argument for an option. -/
theorem files_stay_below_root {c : Component} {typescript : Bool}
    (h : Made store s source o fileKey id c)
    (hextension : o.extension = o.framework.extension typescript) :
    IsComponentName c.file.name.toList ∧
      (o.framework ≠ .angular →
        c.file.path = c.file.name ++ "." ++ o.extension ∧ Path.parts c.file.path = [c.file.path] ∧
          c.file.scaffold = none) ∧
      (o.framework = .angular →
        ∃ k : String, IsKebab k.toList ∧ c.file.path = k ++ "/" ++ (k ++ ".component.html") ∧
          Path.parts c.file.path = [k, k ++ ".component.html"] ∧
          c.file.scaffold = some ⟨"ng", ["generate", "component", k]⟩) ∧
      Path.isAbsolute c.file.path = false ∧
      (∀ name ∈ Path.parts c.file.path, Path.IsPlainName name) ∧
      (∀ scaffold ∈ c.file.scaffold, ∀ argument ∈ scaffold.arguments,
        argument.toList.head? ≠ some '-') ∧
      ∀ (p : Project) (t : FileTree) (place : Place),
        (p.write c.file t).2.fileAt? place ≠ (p.runScaffold c.file t).2.fileAt? place →
          ∃ rootPlace,
            (p.write c.file t).2.walk (startOf p.workingPlace p.root) (Path.parts p.root) =
              .ok rootPlace ∧ place = rootPlace ++ Path.parts c.file.path := by
  obtain ⟨raw, hname, hpath, hscaffold⟩ := isOf_file_of_made store s source o fileKey id h
  have hslash : '/' ∉ o.extension.toList := by
    rw [hextension]
    exact o.framework.slash_notMem_extension typescript
  obtain ⟨hrelative, hplain⟩ := o.framework.plain_filePath hslash raw
  rw [hname, hscaffold]
  rw [← hpath] at hrelative hplain
  refine ⟨isComponentName_componentName raw, fun hf => ?_, fun hf => ?_, hrelative, hplain,
    o.framework.head?_argument_ne_hyphen raw, fun p t place hplace => ?_⟩
  · have hfile := Framework.isPlainName_filePath hf hslash raw
    rw [hpath, hfile.parts_eq]
    exact ⟨Framework.filePath_eq hf _ _, rfl, Framework.scaffold?_eq_none hf _⟩
  · obtain ⟨htemplate, _, hparts⟩ := Framework.filePath_angular raw o.extension
    rw [hpath, hf]
    exact ⟨_, isKebab_kebabCase raw, htemplate, hparts, rfl⟩
  · exact p.place_of_written hrelative (fun name hmem => (hplain name hmem).not_dots) hplace

/-! ## A name that climbs -/

def climbing : Options := ⟨.angular, "ts", true, some "-rf ../Up 7Card"⟩

def climbingCard : Component :=
  ofRoot (Conversion.sourceOf pageWithCard) climbing (Shelf.store.catalogue [] climbing) "FILE"
    pageWithCard

/-- A project where every command succeeds and does nothing. -/
def quietProject : Project := ⟨["app"], ".", "src", fun _ _ t => (.exited 0, t)⟩

def appTree : FileTree := ⟨[(["app"], .directory)]⟩

def cardTemplate : Place := ["app", "src", "rf-up7-card", "rf-up7-card.component.html"]

/-- The dots and the hyphen in front are not in the path. -/
theorem climbing_card_stays_below_root :
    Made Shelf.store [] (Conversion.sourceOf pageWithCard) climbing "FILE" "1:1" climbingCard ∧
      climbing.extension = climbing.framework.extension true ∧
      climbingCard.file.path = "rf-up7-card/rf-up7-card.component.html" ∧
      (∀ scaffold ∈ climbingCard.file.scaffold, ∀ argument ∈ scaffold.arguments,
        argument.toList.head? ≠ some '-') ∧
      (quietProject.write climbingCard.file appTree).2.fileAt? cardTemplate =
        some climbingCard.file.contents ∧
      ∃ rootPlace, cardTemplate = rootPlace ++ Path.parts climbingCard.file.path := by
  have hmade : Made Shelf.store [] (Conversion.sourceOf pageWithCard) climbing "FILE" "1:1"
      climbingCard := .inl ((render_eq_ok_iff _ _ _ _ _).mpr ⟨pageWithCard, rfl, rfl⟩)
  have hextension : climbing.extension = climbing.framework.extension true := rfl
  obtain ⟨_, _, _, _, _, harguments, hplaces⟩ := files_stay_below_root Shelf.store []
    (Conversion.sourceOf pageWithCard) climbing "FILE" "1:1" hmade hextension
  have hwritten : (quietProject.write climbingCard.file appTree).2.fileAt? cardTemplate =
      some climbingCard.file.contents := by
    decide +kernel
  have hbefore : (quietProject.runScaffold climbingCard.file appTree).2.fileAt? cardTemplate =
      none := by
    decide +kernel
  obtain ⟨rootPlace, _, hplace⟩ :=
    hplaces quietProject appTree cardTemplate (by rw [hwritten, hbefore]; exact Option.some_ne_none _)
  exact ⟨hmade, hextension, by decide +kernel, harguments, hwritten, rootPlace, hplace⟩

end Component

end DesignComponents
