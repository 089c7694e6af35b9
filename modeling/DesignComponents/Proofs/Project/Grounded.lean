import DesignComponents.Proofs.Project.Paths
import DesignComponents.Proofs.Project.Writing

/-!
# Trees on the ground

In a tree that stands on the ground every entry stands in directories, all the way down. A path
that never goes up, or that leads somewhere already, then leads to what is there whenever it does
so after more was written: no entry comes into reach but the one that is written.
-/

namespace DesignComponents

open FileTree

namespace FileTree

/-- What is in a place is in a directory. -/
def Grounded (t : FileTree) : Prop :=
  ∀ place name, (t.entry? (place ++ [name])).isSome → t.entry? place = some .directory

namespace Grounded

variable {t : FileTree}

theorem directory_above (h : t.Grounded) {place below : Place} (hbelow : below ≠ [])
    (hentry : (t.entry? (place ++ below)).isSome) : t.entry? place = some .directory := by
  induction below generalizing place with
  | nil => exact absurd rfl hbelow
  | cons name below ih =>
    cases below with
    | nil => exact h place name hentry
    | cons next below =>
      have hnext : t.entry? (place ++ [name]) = some .directory := by
        apply ih (List.cons_ne_nil next below)
        rw [List.append_assoc]
        exact hentry
      apply h place name
      rw [hnext]
      rfl

theorem put {place : Place} {name : String} {entry : FileEntry} (h : t.Grounded)
    (hplace : t.entry? place = some .directory)
    (hkept : t.entry? (place ++ [name]) = some .directory → entry = .directory) :
    (t.put (place ++ [name]) entry).Grounded := by
  have hne : place ++ [name] ≠ [] := by simp
  intro other inner hinner
  rw [entry?_put t hne] at hinner ⊢
  have hother : t.entry? other = some .directory := by
    split at hinner
    · rename_i hsame
      obtain ⟨rfl, _⟩ := List.append_inj' hsame rfl
      exact hplace
    · exact h other inner hinner
  split
  · rename_i hsame
    rw [hsame] at hother
    rw [hkept hother]
  · exact hother

theorem makeDirectory (h : t.Grounded) {t' : FileTree} {here : Place} {names : List String}
    (hmade : t.makeDirectory here names = .ok t') : t'.Grounded := by
  rw [FileTree.makeDirectory] at hmade
  split at hmade
  · cases hmade
  · obtain ⟨parent, hparent, hmade⟩ := bind_eq_ok_iff.mp hmade
    obtain ⟨_, _, hmade⟩ := bind_eq_ok_iff.mp hmade
    obtain ⟨_, _, hdirectory⟩ := bind_eq_ok_iff.mp hparent
    obtain ⟨hentry, rfl⟩ := directoryAt_eq_ok_iff.mp hdirectory
    split at hmade
    · cases hmade
    · obtain rfl := Except.ok.inj hmade
      exact h.put hentry fun _ => rfl

theorem ensureDirectory (h : t.Grounded) {t' : FileTree} {here : Place} {names : List String}
    (hmade : t.ensureDirectory here names = .ok t') : t'.Grounded := by
  rw [FileTree.ensureDirectory] at hmade
  split at hmade
  · rename_i hnew
    obtain rfl := Except.ok.inj hmade
    exact h.makeDirectory hnew
  · split at hmade
    · obtain rfl := Except.ok.inj hmade
      exact h
    · cases hmade

theorem ensureDirectories (h : t.Grounded) (here : Place) (names : List String) :
    (t.ensureDirectories here names).2.Grounded := by
  induction names with
  | nil => exact h
  | cons name above ih =>
    rw [FileTree.ensureDirectories]
    split
    · rename_i hmade
      exact h.ensureDirectory hmade
    · split
      · rename_i habove
        rw [habove] at ih
        exact ih
      · rename_i habove
        rw [habove] at ih
        split
        · rename_i hmade
          exact ih.ensureDirectory hmade
        · exact ih
    · exact h

theorem ensureParents (h : t.Grounded) (here : Place) (path : String) :
    (t.ensureParents here path).2.Grounded := by
  rw [FileTree.ensureParents]
  split
  · exact h
  · exact h.ensureDirectories _ _

theorem write (h : t.Grounded) {t' : FileTree} {here : Place} {path contents : String}
    (hwritten : t.write here path contents = .ok t') : t'.Grounded := by
  obtain ⟨parent, name, hparent, hfree, _, rfl⟩ := exists_put_of_write hwritten
  exact h.put hparent fun hdirectory => absurd hdirectory hfree

/-! ## Walks that never go up -/

theorem exists_below_of_walk {here place : Place} {names : List String} (hdown : ".." ∉ names)
    (hwalk : t.walk here names = .ok place) : ∃ below, place = here ++ below := by
  induction names generalizing here with
  | nil =>
    obtain rfl := Except.ok.inj hwalk
    exact ⟨[], (List.append_nil _).symm⟩
  | cons name names ih =>
    obtain ⟨hname, hnames⟩ := not_or.mp (mt List.mem_cons.mpr hdown)
    have hdirectory := directory_of_walk_cons hwalk
    rw [walk_cons hdirectory] at hwalk
    by_cases hdot : name = "."
    · rw [if_pos hdot] at hwalk
      exact ih hnames hwalk
    · rw [if_neg hdot, if_neg (Ne.symm hname)] at hwalk
      obtain ⟨_, _, hwalk⟩ := bind_eq_ok_iff.mp hwalk
      obtain ⟨below, rfl⟩ := ih hnames hwalk
      exact ⟨name :: below, by rw [List.append_assoc]; rfl⟩

/-- A walk that never goes up succeeds in every grounded tree with something below its end. -/
theorem walk_of_entry (h : t.Grounded) {t' : FileTree} {here place below : Place}
    {names : List String} (hdown : ".." ∉ names) (hwalk : t'.walk here names = .ok place)
    (hbelow : below ≠ []) (hentry : (t.entry? (place ++ below)).isSome) :
    t.walk here names = .ok place := by
  induction names generalizing here with
  | nil => exact hwalk
  | cons name names ih =>
    obtain ⟨hname, hnames⟩ := not_or.mp (mt List.mem_cons.mpr hdown)
    obtain ⟨passed, hplace⟩ := exists_below_of_walk hdown hwalk
    have hhere : t.entry? here = some .directory := by
      rw [hplace, List.append_assoc] at hentry
      exact h.directory_above (by simp [hbelow]) hentry
    rw [walk_cons (directory_of_walk_cons hwalk)] at hwalk
    rw [walk_cons hhere]
    by_cases hdot : name = "."
    · rw [if_pos hdot] at hwalk ⊢
      exact ih hnames hwalk
    · rw [if_neg hdot, if_neg (Ne.symm hname)] at hwalk ⊢
      obtain ⟨_, hlength, hwalk⟩ := bind_eq_ok_iff.mp hwalk
      exact bind_eq_ok_iff.mpr ⟨_, hlength, ih hnames hwalk⟩

end Grounded

/-! ## Roots that stay where they are -/

/-- The place behind a name, seen from another. -/
def placeOf (here : Place) (name : String) : Place :=
  if name = "." then here else if name = ".." then here.dropLast else here ++ [name]

/-- Where a walk leads does not depend on the tree. -/
theorem eq_of_walk {t : FileTree} {here place : Place} {names : List String}
    (h : t.walk here names = .ok place) : place = names.foldl placeOf here := by
  induction names generalizing here with
  | nil =>
    obtain rfl := Except.ok.inj h
    rfl
  | cons name names ih =>
    rw [walk_cons (directory_of_walk_cons h)] at h
    rw [List.foldl_cons, placeOf]
    by_cases hdot : name = "."
    · rw [if_pos hdot] at h ⊢
      exact ih h
    · rw [if_neg hdot] at h ⊢
      by_cases hdots : name = ".."
      · rw [if_pos hdots] at h ⊢
        exact ih h
      · rw [if_neg hdots] at h ⊢
        obtain ⟨_, _, h⟩ := bind_eq_ok_iff.mp h
        exact ih h

/-- Whether a root leads to the same directories before and after some are made: it never goes up,
or it leads somewhere already. -/
def IsSteady (t : FileTree) (here : Place) (root : String) : Prop :=
  ".." ∉ Path.parts root ∨ ∃ place, t.walk (startOf here root) (Path.parts root) = .ok place

section Steady

variable {t t' : FileTree} {here : Place} {root : String} (hroot : t.IsSteady here root)
include hroot

theorem IsSteady.of_retains (hretains : Retains t t') : t'.IsSteady here root :=
  hroot.imp_right fun ⟨place, hplace⟩ => ⟨place, hretains.walk hplace⟩

/-- Where a steady root leads in another tree it led before, if there was something below it. -/
theorem Grounded.walk_root (ht : t.Grounded) {place below : Place}
    (hwalk : t'.walk (startOf here root) (Path.parts root) = .ok place) (hbelow : below ≠ [])
    (hentry : (t.entry? (place ++ below)).isSome) :
    t.walk (startOf here root) (Path.parts root) = .ok place := by
  rcases hroot with hdown | ⟨place', hplace⟩
  · exact ht.walk_of_entry hdown hwalk hbelow hentry
  · rw [hplace, eq_of_walk hplace, eq_of_walk hwalk]

end Steady

/-! ## Where a plain name below a root leads -/

section Join

variable {t : FileTree} {here : Place} {root name : String} (hname : Path.IsPlainName name)
include hname

theorem startOf_join : startOf here (Path.join root name) = startOf here root := by
  rw [startOf, startOf, Path.isAbsolute_join hname.isAbsolute_eq]

/-- The path leads where the root leads and then to the name. -/
theorem find_join_eq_ok_iff {place : Place} :
    t.find here (Path.join root name) = .ok place ↔
      checkPath (Path.join root name) = .ok () ∧ checkName name = .ok () ∧
        ∃ parent, t.walk (startOf here root) (Path.parts root) = .ok parent ∧
          t.entry? parent = some .directory ∧ place = parent ++ [name] := by
  rw [find, Path.asksForDirectory_join hname, startOf_join hname, Path.parts_join_name hname]
  rw [if_neg Bool.false_ne_true, walk_append]
  constructor
  · intro h
    obtain ⟨_, hpath, h⟩ := bind_eq_ok_iff.mp h
    obtain ⟨parent, hparent, hwalk⟩ := bind_eq_ok_iff.mp h
    have hdirectory := directory_of_walk_cons hwalk
    rw [walk_cons hdirectory, if_neg hname.ne_dot, if_neg hname.ne_dots] at hwalk
    obtain ⟨_, hlength, hlast⟩ := bind_eq_ok_iff.mp hwalk
    exact ⟨hpath, hlength, parent, hparent, hdirectory, (Except.ok.inj hlast).symm⟩
  · rintro ⟨hpath, hlength, parent, hparent, hdirectory, rfl⟩
    refine bind_eq_ok_iff.mpr ⟨_, hpath, bind_eq_ok_iff.mpr ⟨parent, hparent, ?_⟩⟩
    rw [walk_cons hdirectory, if_neg hname.ne_dot, if_neg hname.ne_dots]
    exact bind_eq_ok_iff.mpr ⟨_, hlength, rfl⟩

end Join

theorem isSome_entry?_of_fileAt? {t : FileTree} {place : Place}
    (h : (t.fileAt? place).isSome) : (t.entry? place).isSome := by
  rw [fileAt?] at h
  split at h
  · rename_i hentry
    rw [hentry]
    rfl
  · cases h

/-- Below a steady root a file that was there before can be reached before. -/
theorem isFile_join_congr {t t' : FileTree} (ht : t.Grounded) (hretains : Retains t t')
    {here : Place} {root name : String} (hroot : t.IsSteady here root)
    (hname : Path.IsPlainName name)
    (hthere : ∀ parent, t'.walk (startOf here root) (Path.parts root) = .ok parent →
      (t'.fileAt? (parent ++ [name])).isSome → (t.fileAt? (parent ++ [name])).isSome) :
    t'.isFile here (Path.join root name) = t.isFile here (Path.join root name) := by
  rw [Bool.eq_iff_iff]
  constructor
  · intro hfile
    obtain ⟨place, hfound, hsome⟩ := isFile_iff.mp hfile
    obtain ⟨hpath, hlength, parent, hparent, _, rfl⟩ := (find_join_eq_ok_iff hname).mp hfound
    have hbefore := hthere parent hparent hsome
    have hentry := isSome_entry?_of_fileAt? hbefore
    have hwalk := ht.walk_root hroot hparent (List.cons_ne_nil name []) hentry
    have hfound' := (find_join_eq_ok_iff hname).mpr
      ⟨hpath, hlength, parent, hwalk, ht parent name hentry, rfl⟩
    exact isFile_iff.mpr ⟨_, hfound', hbefore⟩
  · exact hretains.isFile

/-! ## Writing again -/

theorem walk_filter_dots {t : FileTree} {here place : Place} {names : List String}
    (h : t.walk here names = .ok place) : t.walk here (names.filter (· ≠ ".")) = .ok place := by
  induction names generalizing here with
  | nil => exact h
  | cons name names ih =>
    have hdirectory := directory_of_walk_cons h
    rw [walk_cons hdirectory] at h
    by_cases hdot : name = "."
    · rw [if_pos hdot] at h
      rw [List.filter_cons_of_neg (by simp [hdot])]
      exact ih h
    · rw [if_neg hdot] at h
      rw [List.filter_cons_of_pos (by simp [hdot]), walk_cons hdirectory, if_neg hdot]
      by_cases hdots : name = ".."
      · rw [if_pos hdots] at h ⊢
        exact ih h
      · rw [if_neg hdots] at h ⊢
        obtain ⟨_, hlength, h⟩ := bind_eq_ok_iff.mp h
        exact bind_eq_ok_iff.mpr ⟨_, hlength, ih h⟩

theorem directoryOf_filter_dots {t : FileTree} {here place : Place} {names : List String}
    (h : t.directoryOf here names = .ok place) :
    t.directoryOf here (names.filter (· ≠ ".")) = .ok place := by
  obtain ⟨last, hwalk, hdirectory⟩ := bind_eq_ok_iff.mp h
  exact bind_eq_ok_iff.mpr ⟨last, walk_filter_dots hwalk, hdirectory⟩

theorem directoryOf_dot_iff {t : FileTree} {here place : Place} {names : List String} :
    t.directoryOf here ("." :: names) = .ok place ↔
      t.entry? here = some .directory ∧ t.directoryOf here names = .ok place := by
  constructor
  · intro h
    obtain ⟨last, hwalk, hlast⟩ := bind_eq_ok_iff.mp h
    have hdirectory := directory_of_walk_cons hwalk
    rw [walk_cons hdirectory, if_pos rfl] at hwalk
    exact ⟨hdirectory, bind_eq_ok_iff.mpr ⟨last, hwalk, hlast⟩⟩
  · rintro ⟨hdirectory, h⟩
    obtain ⟨last, hwalk, hlast⟩ := bind_eq_ok_iff.mp h
    refine bind_eq_ok_iff.mpr ⟨last, ?_, hlast⟩
    rw [walk_cons hdirectory, if_pos rfl]
    exact hwalk

theorem significantParts_cases (path : String) :
    Path.significantParts path = (Path.parts path).filter (· ≠ ".") ∨
      ∃ rest, Path.parts path = "." :: rest ∧
        Path.significantParts path = "." :: rest.filter (· ≠ ".") := by
  rw [Path.significantParts]
  split
  · rename_i rest heq
    split
    · left
      rw [heq, List.filter_cons_of_neg (by decide)]
    · exact .inr ⟨rest, heq, rfl⟩
  · exact .inl rfl

/-- Without the dots that stay in place the parts of a path lead to the same directory. -/
theorem directoryOf_significantParts {t : FileTree} {here place : Place} {path name : String}
    {names : List String} (hparts : Path.parts path = names ++ [name]) (hname : name ≠ ".")
    (h : t.directoryOf here names = .ok place) :
    t.directoryOf here (Path.significantParts path).dropLast = .ok place := by
  have hfilter : ∀ names : List String,
      (names ++ [name]).filter (· ≠ ".") = names.filter (· ≠ ".") ++ [name] := by
    intro names
    rw [List.filter_append, List.filter_cons_of_pos (by simp [hname]), List.filter_nil]
  rcases significantParts_cases path with hall | ⟨rest, hdot, hrest⟩
  · rw [hall, hparts, hfilter, List.dropLast_concat]
    exact directoryOf_filter_dots h
  · rw [hparts] at hdot
    cases names with
    | nil => exact absurd (List.cons.inj hdot).1 hname
    | cons first names =>
      obtain ⟨rfl, hnames⟩ := List.cons.inj hdot
      change names ++ [name] = rest at hnames
      obtain ⟨hdirectory, h⟩ := directoryOf_dot_iff.mp h
      rw [hrest, ← hnames, hfilter, ← List.cons_append, List.dropLast_concat]
      exact directoryOf_dot_iff.mpr ⟨hdirectory, directoryOf_filter_dots h⟩

/-- A directory that is there is not made. -/
theorem makeDirectory_ne_ok {t t' : FileTree} {here place : Place} {names : List String}
    (h : t.directoryOf here names = .ok place) : t.makeDirectory here names ≠ .ok t' := by
  intro hmade
  rw [makeDirectory] at hmade
  split at hmade
  · cases hmade
  · rename_i name hlast
    obtain ⟨parent, hparent, hmade⟩ := bind_eq_ok_iff.mp hmade
    obtain ⟨_, hlength, hmade⟩ := bind_eq_ok_iff.mp hmade
    split at hmade
    · cases hmade
    · rename_i hfree
      obtain ⟨hdots, hnone⟩ : isDots name = false ∧ t.entry? (parent ++ [name]) = none := by
        simpa using hfree
      have hnotDots : name ≠ "." ∧ name ≠ ".." := by simpa [isDots] using hdots
      -- The names lead to the very place that is said to be free.
      obtain ⟨front, rfl⟩ := List.getLast?_eq_some_iff.mp hlast
      rw [List.dropLast_concat] at hparent
      obtain ⟨last, hwalk, hdirectory⟩ := bind_eq_ok_iff.mp hparent
      obtain ⟨hentry, rfl⟩ := directoryAt_eq_ok_iff.mp hdirectory
      obtain ⟨last', hwalk', hdirectory'⟩ := bind_eq_ok_iff.mp h
      obtain ⟨hentry', rfl⟩ := directoryAt_eq_ok_iff.mp hdirectory'
      rw [walk_append] at hwalk'
      obtain ⟨passed, hpassed, hstep⟩ := bind_eq_ok_iff.mp hwalk'
      obtain rfl : last = passed := Except.ok.inj (hwalk.symm.trans hpassed)
      rw [walk_cons hentry, if_neg hnotDots.1, if_neg hnotDots.2] at hstep
      obtain ⟨_, _, hstep⟩ := bind_eq_ok_iff.mp hstep
      obtain rfl := Except.ok.inj hstep
      rw [hnone] at hentry'
      cases hentry'

/-- Directories that are there are left as they are. -/
theorem ensureDirectories_of_directoryOf {t : FileTree} {here place : Place}
    {namesBackwards : List String} (h : t.directoryOf here namesBackwards.reverse = .ok place) :
    t.ensureDirectories here namesBackwards = (.ok (), t) := by
  cases namesBackwards with
  | nil => rfl
  | cons name above =>
    have hensured : t.ensureDirectory here (name :: above).reverse = .ok t := by
      rw [ensureDirectory]
      split
      · rename_i t' hmade
        exact absurd hmade (makeDirectory_ne_ok h)
      · rw [h]
    rw [ensureDirectories]
    simp only [hensured]

end FileTree

/-! ## Writing components -/

namespace Project

variable (p : Project) {file : ComponentFile} {t : FileTree}

theorem write_of_no_scaffold (h : file.scaffold = none) : p.write file t = p.writeFile file t := by
  have hrun : p.runScaffold file t = (.ok (), t) := by rw [runScaffold, h]
  exact p.write_of_laid hrun

theorem grounded_write (h : file.scaffold = none) (ht : t.Grounded) :
    (p.write file t).2.Grounded := by
  rw [p.write_of_no_scaffold h, writeFile]
  have hparents := ht.ensureParents p.workingPlace (Path.join p.root file.path)
  rcases hmade : t.ensureParents p.workingPlace (Path.join p.root file.path) with ⟨e | _, t'⟩
  · rw [hmade] at hparents
    exact hparents
  · rw [hmade] at hparents
    cases hwritten : t'.write p.workingPlace (Path.join p.root file.path) file.contents with
    | error e =>
      simp only [hwritten]
      exact hparents
    | ok t'' =>
      simp only [hwritten]
      exact hparents.write hwritten

/-- A file that is written, or that cannot be written, changes nothing for the files of other
names. -/
theorem isFile_write (h : file.scaffold = none) (ht : t.Grounded)
    (hroot : t.IsSteady p.workingPlace p.root) (hpath : Path.IsPlainName file.path) {name : String}
    (hname : Path.IsPlainName name) (hne : name ≠ file.path) :
    (p.write file t).2.isFile p.workingPlace (Path.join p.root name) =
      t.isFile p.workingPlace (Path.join p.root name) := by
  apply isFile_join_congr ht (p.retains_write_of_no_scaffold h) hroot hname
  intro parent hparent hsome
  rw [p.write_of_no_scaffold h] at hparent hsome
  rcases p.writeFile_cases file t with ⟨t', hdone, _, hwrites⟩ | ⟨text, t', hfailed, hmore⟩
  · rw [hdone] at hparent hsome
    obtain ⟨place, hfound, _, hothers⟩ := hwrites
    obtain ⟨_, _, parent', hparent', _, rfl⟩ := (find_join_eq_ok_iff hpath).mp hfound
    obtain rfl : parent' = parent := Except.ok.inj (hparent'.symm.trans hparent)
    have hapart : parent' ++ [name] ≠ parent' ++ [file.path] := by
      intro hsame
      exact hne (List.singleton_inj.mp (List.append_cancel_left hsame))
    rw [← hothers _ hapart]
    exact hsome
  · rw [hfailed] at hsome
    rw [← hmore.sameFiles]
    exact hsome

theorem isFile_of_written (h : file.scaffold = none) {path : String}
    (hwritten : (p.write file t).1 = .ok path) :
    (p.write file t).2.isFile p.workingPlace (Path.join p.root file.path) = true := by
  rw [p.write_of_no_scaffold h] at hwritten ⊢
  rcases p.writeFile_cases file t with ⟨t', hdone, _, place, hfound, hcontents, _⟩ |
    ⟨text, t', hfailed, _⟩
  · rw [hdone]
    refine isFile_iff.mpr ⟨place, hfound, ?_⟩
    rw [hcontents]
    rfl
  · rw [hfailed] at hwritten
    cases hwritten

theorem writeFile_eq_ok_iff {path : String} {t' : FileTree} :
    p.writeFile file t = (.ok path, t') ↔
      path = Path.join p.root file.path ∧
        ∃ parents, t.ensureParents p.workingPlace path = (.ok (), parents) ∧
          parents.write p.workingPlace path file.contents = .ok t' := by
  rw [writeFile]
  constructor
  · intro h
    rcases hmade : t.ensureParents p.workingPlace (Path.join p.root file.path) with ⟨e | _, parents⟩
    · rw [hmade] at h
      cases h
    · rw [hmade] at h
      cases hwritten : parents.write p.workingPlace (Path.join p.root file.path)
          file.contents with
      | error e =>
        simp only [hwritten] at h
        cases h
      | ok t'' =>
        simp only [hwritten] at h
        obtain ⟨hpath, rfl⟩ := Prod.mk.inj h
        obtain rfl := Except.ok.inj hpath
        exact ⟨rfl, parents, hmade, hwritten⟩
  · rintro ⟨rfl, parents, hmade, hwritten⟩
    rw [hmade]
    simp only [hwritten]

/-- What could be written can be written again. -/
theorem write_again (h : file.scaffold = none) (hpath : Path.IsPlainName file.path) {path : String}
    (hwritten : (p.write file t).1 = .ok path) :
    (p.write file (p.write file t).2).1 = .ok path := by
  rw [p.write_of_no_scaffold h] at hwritten
  rw [p.write_of_no_scaffold h, p.write_of_no_scaffold h]
  obtain ⟨rfl, parents, hmade, hdone⟩ := p.writeFile_eq_ok_iff.mp
    (show p.writeFile file t = (.ok path, (p.writeFile file t).2) by rw [← hwritten])
  have hretains := retains_write hdone
  obtain ⟨name, parent, hcheck, hname, hparent, hslash, hdots, hlength, _, hput⟩ :=
    write_eq_ok_iff.mp hdone
  generalize (p.writeFile file t).2 = t' at hdone hretains hput ⊢
  have hfile : t'.entry? (parent ++ [name]) = some (.file file.contents) := by
    rw [hput, entry?_put _ (by simp), if_pos rfl]
  have hthere : t'.directoryOf (startOf p.workingPlace (Path.join p.root file.path))
      (Path.significantParts (Path.join p.root file.path)).dropLast = .ok parent := by
    have hnames := hretains.directoryOf hparent
    rw [Path.parts_join_name hpath, List.dropLast_concat] at hnames
    exact directoryOf_significantParts (Path.parts_join_name hpath) hpath.ne_dot hnames
  have hparents : t'.ensureParents p.workingPlace (Path.join p.root file.path) = (.ok (), t') := by
    rw [ensureParents] at hmade ⊢
    split at hmade
    · cases hmade
    · rename_i hnul
      rw [if_neg hnul]
      apply ensureDirectories_of_directoryOf
      rw [List.reverse_reverse]
      exact hthere
  have hagain : t'.write p.workingPlace (Path.join p.root file.path) file.contents =
      .ok (t'.put (parent ++ [name]) (.file file.contents)) := by
    refine write_eq_ok_iff.mpr ⟨name, parent, hcheck, hname, hretains.directoryOf hparent, hslash,
      hdots, hlength, ?_, rfl⟩
    rw [hfile]
    simp
  rw [p.writeFile_eq_ok_iff.mpr ⟨rfl, t', hparents, hagain⟩]

end Project

end DesignComponents
