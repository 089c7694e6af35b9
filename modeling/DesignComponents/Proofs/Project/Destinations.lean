import DesignComponents.Proofs.Project.Collisions

/-!
# Where a path leads

In every tree in which a path leads anywhere it leads to the same place, for each of its names goes
down, stays or goes up. So two components come to lie at one place only if their paths are the
same, unless an extension takes one of the paths elsewhere.
-/

namespace DesignComponents

open FileTree

namespace FileTree

/-! ## Places by names -/

/-- The place that a path leads to if it leads anywhere. -/
def destination (here : Place) (path : String) : Place :=
  (Path.parts path).foldl placeOf (startOf here path)

theorem foldl_placeOf {names : List String} (hnames : ∀ name ∈ names, isDots name = false)
    (here : Place) : names.foldl placeOf here = here ++ names := by
  induction names generalizing here with
  | nil => exact (List.append_nil here).symm
  | cons name names ih =>
    obtain ⟨hname, hnames⟩ := List.forall_mem_cons.mp hnames
    rw [isDots, Bool.or_eq_false_iff, beq_eq_false_iff_ne, beq_eq_false_iff_ne] at hname
    rw [List.foldl_cons, placeOf, if_neg hname.1, if_neg hname.2, ih hnames, List.append_assoc]
    rfl

variable {t : FileTree} {here place : Place}

theorem eq_destination {path : String} (h : t.find here path = .ok place) :
    place = destination here path :=
  eq_of_walk (walk_of_find h)

theorem isFile_iff_destination {path : String} : t.isFile here path = true ↔
    t.find here path = .ok (destination here path) ∧
      (t.fileAt? (destination here path)).isSome = true := by
  rw [isFile_iff]
  constructor
  · rintro ⟨place, hfound, hfile⟩
    rw [← eq_destination hfound]
    exact ⟨hfound, hfile⟩
  · rintro ⟨hfound, hfile⟩
    exact ⟨_, hfound, hfile⟩

theorem read_iff_destination {path contents : String} : t.read here path = .ok contents ↔
    t.find here path = .ok (destination here path) ∧
      t.fileAt? (destination here path) = some contents := by
  rw [read_eq_ok_iff]
  constructor
  · rintro ⟨place, hfound, hfile⟩
    rw [← eq_destination hfound]
    exact ⟨hfound, hfile⟩
  · rintro ⟨hfound, hfile⟩
    exact ⟨_, hfound, hfile⟩

theorem destination_join {root path : String} (hpath : Path.isAbsolute path = false)
    (hnames : ∀ name ∈ Path.parts path, isDots name = false) :
    destination here (Path.join root path) = destination here root ++ Path.parts path := by
  rw [destination, Path.parts_join hpath, startOf, Path.isAbsolute_join hpath, List.foldl_append,
    foldl_placeOf hnames]
  rfl

/-! ## Files that were there before -/

theorem Grounded.walk_of_entry_plain (ht : t.Grounded) {t' : FileTree} {names : List String}
    (hnames : ∀ name ∈ names, isDots name = false) (hwalk : t'.walk here names = .ok place)
    (hentry : (t.entry? place).isSome = true) : t.walk here names = .ok place := by
  induction names generalizing here with
  | nil => exact hwalk
  | cons name names ih =>
    obtain ⟨hname, hrest⟩ := List.forall_mem_cons.mp hnames
    have hhere : t.entry? here = some .directory := by
      rw [eq_append_of_walk hnames hwalk] at hentry
      exact ht.directory_above (List.cons_ne_nil name names) hentry
    rw [isDots, Bool.or_eq_false_iff, beq_eq_false_iff_ne, beq_eq_false_iff_ne] at hname
    rw [walk_cons (directory_of_walk_cons hwalk), if_neg hname.1, if_neg hname.2] at hwalk
    obtain ⟨_, hlength, hwalk⟩ := bind_eq_ok_iff.mp hwalk
    rw [walk_cons hhere, if_neg hname.1, if_neg hname.2]
    exact bind_eq_ok_iff.mpr ⟨_, hlength, ih hrest hwalk⟩

/-- Below a steady root a file that was there before was found there before. -/
theorem Grounded.isFile_join (ht : t.Grounded) {t' : FileTree} {root path : String}
    (hroot : t.IsSteady here root) (hpath : Path.isAbsolute path = false)
    (hne : Path.parts path ≠ []) (hnames : ∀ name ∈ Path.parts path, isDots name = false)
    (hfile : t'.isFile here (Path.join root path) = true)
    (hthere : (t.fileAt? (destination here (Path.join root path))).isSome = true) :
    t.isFile here (Path.join root path) = true := by
  obtain ⟨hfound, hsome⟩ := isFile_iff_destination.mp hfile
  refine isFile_iff_destination.mpr ⟨?_, hthere⟩
  have hentry := isSome_entry?_of_fileAt? hthere
  obtain ⟨rootPlace, hroot', hwalk⟩ := exists_root_of_find_join hpath hfound
  have hplace := eq_append_of_walk hnames hwalk
  have hrootWalk : t.walk (startOf here root) (Path.parts root) = .ok rootPlace := by
    refine ht.walk_root hroot hroot' hne ?_
    rwa [← hplace]
  obtain ⟨_, hcheck, hfound⟩ := bind_eq_ok_iff.mp hfound
  refine bind_eq_ok_iff.mpr ⟨_, hcheck, ?_⟩
  by_cases hslash : asksForDirectory (Path.join root path) = true
  · -- A path with a slash at its end would lead to a directory.
    rw [if_pos hslash] at hfound
    obtain ⟨_, _, hdirectory⟩ := bind_eq_ok_iff.mp hfound
    obtain ⟨hdirectory, rfl⟩ := directoryAt_eq_ok_iff.mp hdirectory
    rw [fileAt?, hdirectory] at hsome
    cases hsome
  · rw [if_neg hslash, startOf, Path.isAbsolute_join hpath, Path.parts_join hpath, walk_append]
    exact bind_eq_ok_iff.mpr ⟨rootPlace, hrootWalk, ht.walk_of_entry_plain hnames hwalk hentry⟩

end FileTree

/-! ## The paths of components -/

namespace Framework

variable (f : Framework)

theorem parts_filePath_ne_nil (raw : String) {extension : String}
    (hextension : '/' ∉ extension.toList) :
    Path.parts (f.filePath (componentName raw) extension) ≠ [] := by
  by_cases hf : f = .angular
  · subst hf
    rw [(filePath_angular raw extension).2.2]
    exact List.cons_ne_nil _ _
  · rw [(isPlainName_filePath hf hextension raw).parts_eq]
    exact List.cons_ne_nil _ _

theorem not_dots_filePath (raw : String) {extension : String}
    (hextension : '/' ∉ extension.toList) :
    ∀ name ∈ Path.parts (f.filePath (componentName raw) extension), isDots name = false :=
  fun name hname => ((f.plain_filePath hextension raw).2 name hname).not_dots

/-- Paths with the same parts are the same, whatever their extensions are. -/
theorem filePath_eq_of_parts {raw raw' extension extension' : String}
    (hextension : '/' ∉ extension.toList) (hextension' : '/' ∉ extension'.toList)
    (h : Path.parts (f.filePath (componentName raw) extension) =
      Path.parts (f.filePath (componentName raw') extension')) :
    f.filePath (componentName raw) extension = f.filePath (componentName raw') extension' := by
  by_cases hf : f = .angular
  · subst hf
    obtain ⟨hpath, _, hparts⟩ := filePath_angular raw extension
    obtain ⟨hpath', _, hparts'⟩ := filePath_angular raw' extension'
    rw [hparts, hparts'] at h
    rw [hpath, hpath', (List.cons.inj h).1]
  · rw [(isPlainName_filePath hf hextension raw).parts_eq,
      (isPlainName_filePath hf hextension' raw').parts_eq] at h
    exact List.singleton_inj.mp h

end Framework

namespace Project

variable (p : Project) (f : Framework)

/-- Where the file of a component is, if its path leads anywhere. -/
def placeFor (name extension : String) : Place :=
  destination p.workingPlace (p.pathFor f name extension)

theorem placeFor_eq (raw : String) {extension : String} (hextension : '/' ∉ extension.toList) :
    p.placeFor f (componentName raw) extension =
      destination p.workingPlace p.root ++
        Path.parts (f.filePath (componentName raw) extension) :=
  destination_join (f.plain_filePath hextension raw).1 (f.not_dots_filePath raw hextension)

theorem placeFor_inj {raw raw' extension extension' : String}
    (hextension : '/' ∉ extension.toList) (hextension' : '/' ∉ extension'.toList) :
    p.placeFor f (componentName raw) extension = p.placeFor f (componentName raw') extension' ↔
      p.pathFor f (componentName raw) extension = p.pathFor f (componentName raw') extension' := by
  constructor
  · intro h
    rw [p.placeFor_eq f raw hextension, p.placeFor_eq f raw' hextension'] at h
    rw [pathFor, pathFor, f.filePath_eq_of_parts hextension hextension'
      (List.append_cancel_left h)]
  · intro h
    rw [placeFor, placeFor, h]

/-- Below a steady root a component was found before where its file was before. -/
theorem holds_of_file {t t' : FileTree} (ht : t.Grounded)
    (hroot : t.IsSteady p.workingPlace p.root) {raw extension : String}
    (hextension : '/' ∉ extension.toList)
    (hholds : p.holds t' f (componentName raw) extension = true)
    (hthere : (t.fileAt? (p.placeFor f (componentName raw) extension)).isSome = true) :
    p.holds t f (componentName raw) extension = true :=
  ht.isFile_join hroot (f.plain_filePath hextension raw).1 (f.parts_filePath_ne_nil raw hextension)
    (f.not_dots_filePath raw hextension) hholds hthere

end Project

end DesignComponents
