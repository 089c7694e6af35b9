import DesignComponents.Project.FileTree

/-!
# What writing does to a file tree

To make room for a file adds directories where there was nothing, and no more. To write it then
changes the one place that its path leads to. What was a directory stays one, so that every path
leads where it led before.
-/

namespace DesignComponents

theorem bind_eq_ok_iff {ε α β : Type} {x : Except ε α} {f : α → Except ε β} {b : β} :
    (x >>= f) = .ok b ↔ ∃ a, x = .ok a ∧ f a = .ok b := by
  cases x with
  | error e => simp [bind, Except.bind]
  | ok a => simp [bind, Except.bind]

namespace FileTree

/-! ## Entries -/

theorem entryOf?_putEntry (place : Place) (entry : FileEntry) (other : Place)
    (entries : List (Place × FileEntry)) :
    entryOf? other (putEntry place entry entries) =
      if other = place then some entry else entryOf? other entries := by
  induction entries with
  | nil => simp [putEntry, entryOf?, eq_comm]
  | cons first rest ih =>
    obtain ⟨p, e⟩ := first
    by_cases hplace : p = place
    · subst hplace
      by_cases hother : p = other
      · simp [putEntry, entryOf?, hother]
      · simp [putEntry, entryOf?, hother, Ne.symm hother]
    · by_cases hother : p = other
      · have hne : other ≠ place := by
          rw [← hother]
          exact hplace
        simp [putEntry, entryOf?, hother, hne]
      · simp [putEntry, entryOf?, hplace, hother, ih]

theorem entry?_of_ne_nil (t : FileTree) {place : Place} (h : place ≠ []) :
    t.entry? place = entryOf? place t.entries := by
  cases place with
  | nil => exact absurd rfl h
  | cons name rest => rfl

theorem entry?_put (t : FileTree) {place : Place} (h : place ≠ []) (entry : FileEntry)
    (other : Place) :
    entry? (t.put place entry) other = if other = place then some entry else t.entry? other := by
  by_cases hroot : other = []
  · subst hroot
    rw [if_neg (Ne.symm h)]
    rfl
  · rw [entry?_of_ne_nil _ hroot, entry?_of_ne_nil t hroot]
    exact entryOf?_putEntry place entry other t.entries

/-- What is in the file at a place, if there is one. -/
def fileAt? (t : FileTree) (place : Place) : Option String :=
  match t.entry? place with
  | some (.file contents) => some contents
  | _ => none

theorem fileAt?_congr {t t' : FileTree} {place : Place} (h : t'.entry? place = t.entry? place) :
    t'.fileAt? place = t.fileAt? place := by
  rw [fileAt?, fileAt?, h]

theorem fileAt?_of_entry? {t : FileTree} {place : Place} {contents : String}
    (h : t.entry? place = some (.file contents)) : t.fileAt? place = some contents := by
  rw [fileAt?, h]

/-! ## Trees that are alike -/

/-- The same files with the same contents, whatever directories there are. -/
def SameFiles (t t' : FileTree) : Prop := ∀ place, t'.fileAt? place = t.fileAt? place

theorem SameFiles.refl (t : FileTree) : SameFiles t t := fun _ => rfl

/-- Nothing but directories is new, each where there was nothing. -/
def MoreDirectories (t t' : FileTree) : Prop :=
  ∀ place, t'.entry? place = t.entry? place ∨
    t.entry? place = none ∧ t'.entry? place = some .directory

/-- What is a directory stays a directory, and what is a file a file. -/
structure Retains (t t' : FileTree) : Prop where
  directory : ∀ place, t.entry? place = some .directory → t'.entry? place = some .directory
  file : ∀ place, (t.fileAt? place).isSome → (t'.fileAt? place).isSome

theorem Retains.trans {t t' t'' : FileTree} (h : Retains t t') (h' : Retains t' t'') :
    Retains t t'' where
  directory place hplace := h'.directory place (h.directory place hplace)
  file place hplace := h'.file place (h.file place hplace)

namespace MoreDirectories

theorem refl (t : FileTree) : MoreDirectories t t := fun _ => .inl rfl

theorem trans {t t' t'' : FileTree} (h : MoreDirectories t t') (h' : MoreDirectories t' t'') :
    MoreDirectories t t'' := by
  intro place
  rcases h place with hsame | ⟨hnone, hnew⟩
  · rcases h' place with hsame' | ⟨hnone', hnew'⟩
    · exact .inl (hsame'.trans hsame)
    · exact .inr ⟨hsame ▸ hnone', hnew'⟩
  · rcases h' place with hsame' | ⟨hnone', _⟩
    · exact .inr ⟨hnone, hsame'.trans hnew⟩
    · rw [hnew] at hnone'
      cases hnone'

theorem put_directory {t : FileTree} {place : Place} (h : t.entry? place = none) :
    MoreDirectories t (t.put place .directory) := by
  have hne : place ≠ [] := by
    rintro rfl
    cases h
  intro other
  rw [entry?_put t hne]
  by_cases hother : other = place
  · rw [if_pos hother]
    exact .inr ⟨hother ▸ h, rfl⟩
  · rw [if_neg hother]
    exact .inl rfl

variable {t t' : FileTree}

theorem sameFiles (h : MoreDirectories t t') : SameFiles t t' := by
  intro place
  rcases h place with hsame | ⟨hnone, hnew⟩
  · exact fileAt?_congr hsame
  · rw [fileAt?, fileAt?, hnone, hnew]

theorem retains (h : MoreDirectories t t') : Retains t t' where
  directory place hplace := by
    rcases h place with hsame | ⟨hnone, _⟩
    · exact hsame.trans hplace
    · rw [hnone] at hplace
      cases hplace
  file place hplace := by
    rw [h.sameFiles place]
    exact hplace

end MoreDirectories

theorem retains_put_file {t : FileTree} {place : Place} (hne : place ≠ [])
    (h : t.entry? place ≠ some .directory) (contents : String) :
    Retains t (t.put place (.file contents)) where
  directory other hother := by
    have hdistinct : other ≠ place := by
      rintro rfl
      exact h hother
    rw [entry?_put t hne, if_neg hdistinct]
    exact hother
  file other hother := by
    rw [fileAt?, entry?_put t hne]
    by_cases hsame : other = place
    · rw [if_pos hsame]
      rfl
    · rw [if_neg hsame]
      exact hother

/-! ## Paths lead where they led -/

theorem directoryAt_eq_ok_iff {t : FileTree} {place place' : Place} :
    t.directoryAt place = .ok place' ↔ t.entry? place = some .directory ∧ place = place' := by
  rw [directoryAt]
  split
  · simp_all
  · simp_all
  · simp_all

theorem walk_cons {t : FileTree} {here : Place} (h : t.entry? here = some .directory)
    (name : String) (rest : List String) :
    t.walk here (name :: rest) =
      if name = "." then t.walk here rest
      else if name = ".." then t.walk here.dropLast rest
      else checkName name >>= fun _ => t.walk (here ++ [name]) rest := by
  rw [walk, directoryAt_eq_ok_iff.mpr ⟨h, rfl⟩]
  rfl

theorem directory_of_walk_cons {t : FileTree} {here place : Place} {name : String}
    {rest : List String} (h : t.walk here (name :: rest) = .ok place) :
    t.entry? here = some .directory := by
  rw [walk, bind_eq_ok_iff] at h
  obtain ⟨_, hdirectory, _⟩ := h
  exact (directoryAt_eq_ok_iff.mp hdirectory).1

theorem walk_append (t : FileTree) (here : Place) (names names' : List String) :
    t.walk here (names ++ names') = t.walk here names >>= fun place => t.walk place names' := by
  induction names generalizing here with
  | nil => rfl
  | cons name names ih =>
    rw [List.cons_append, walk, walk]
    cases t.directoryAt here with
    | error e => rfl
    | ok here =>
      simp only [bind, Except.bind] at ih ⊢
      split
      · exact ih here
      · split
        · exact ih here.dropLast
        · cases checkName name with
          | error e => rfl
          | ok _ => exact ih (here ++ [name])

theorem Retains.walk {t t' : FileTree} (h : Retains t t') {here place : Place}
    {names : List String} (hwalk : t.walk here names = .ok place) :
    t'.walk here names = .ok place := by
  induction names generalizing here with
  | nil => exact hwalk
  | cons name names ih =>
    have hdirectory := directory_of_walk_cons hwalk
    rw [walk_cons hdirectory] at hwalk
    rw [walk_cons (h.directory here hdirectory)]
    by_cases hdot : name = "."
    · rw [if_pos hdot] at hwalk ⊢
      exact ih hwalk
    · rw [if_neg hdot] at hwalk ⊢
      by_cases hdots : name = ".."
      · rw [if_pos hdots] at hwalk ⊢
        exact ih hwalk
      · rw [if_neg hdots] at hwalk ⊢
        obtain ⟨_, hname, hrest⟩ := bind_eq_ok_iff.mp hwalk
        exact bind_eq_ok_iff.mpr ⟨_, hname, ih hrest⟩

theorem Retains.directoryOf {t t' : FileTree} (h : Retains t t') {here place : Place}
    {names : List String} (hfound : t.directoryOf here names = .ok place) :
    t'.directoryOf here names = .ok place := by
  obtain ⟨last, hwalk, hdirectory⟩ := bind_eq_ok_iff.mp hfound
  obtain ⟨hentry, hplace⟩ := directoryAt_eq_ok_iff.mp hdirectory
  exact bind_eq_ok_iff.mpr
    ⟨last, h.walk hwalk, directoryAt_eq_ok_iff.mpr ⟨h.directory _ hentry, hplace⟩⟩

theorem Retains.find {t t' : FileTree} (h : Retains t t') {here place : Place} {path : String}
    (hfound : t.find here path = .ok place) : t'.find here path = .ok place := by
  obtain ⟨_, hpath, hfound⟩ := bind_eq_ok_iff.mp hfound
  refine bind_eq_ok_iff.mpr ⟨_, hpath, ?_⟩
  by_cases hslash : asksForDirectory path = true
  · rw [if_pos hslash] at hfound ⊢
    exact h.directoryOf hfound
  · rw [if_neg hslash] at hfound ⊢
    exact h.walk hfound

theorem isFile_iff {t : FileTree} {here : Place} {path : String} :
    t.isFile here path = true ↔
      ∃ place, t.find here path = .ok place ∧ (t.fileAt? place).isSome := by
  rw [isFile]
  cases t.find here path with
  | error e => simp
  | ok place =>
    simp only [Except.ok.injEq, exists_eq_left', fileAt?]
    split <;> simp_all

theorem read_eq_ok_iff {t : FileTree} {here : Place} {path contents : String} :
    t.read here path = .ok contents ↔
      ∃ place, t.find here path = .ok place ∧ t.fileAt? place = some contents := by
  rw [read, bind_eq_ok_iff]
  refine exists_congr fun place => and_congr_right fun _ => ?_
  rcases hentry : t.entry? place with _ | (_ | contents')
  · simp [fileAt?, hentry]
  · simp [fileAt?, hentry]
  · simp [fileAt?, hentry]

theorem Retains.isFile {t t' : FileTree} (h : Retains t t') {here : Place} {path : String}
    (hfile : t.isFile here path = true) : t'.isFile here path = true := by
  obtain ⟨place, hfound, hfile⟩ := isFile_iff.mp hfile
  exact isFile_iff.mpr ⟨place, h.find hfound, h.file place hfile⟩

/-! ## Making directories -/

theorem moreDirectories_makeDirectory {t t' : FileTree} {here : Place} {names : List String}
    (h : t.makeDirectory here names = .ok t') : MoreDirectories t t' := by
  rw [makeDirectory] at h
  split at h
  · cases h
  · rename_i name _
    obtain ⟨parent, _, h⟩ := bind_eq_ok_iff.mp h
    obtain ⟨_, _, h⟩ := bind_eq_ok_iff.mp h
    split at h
    · cases h
    · rename_i hfree
      have hnone : t.entry? (parent ++ [name]) = none := by simp_all
      obtain rfl := Except.ok.inj h
      exact .put_directory hnone

theorem moreDirectories_ensureDirectory {t t' : FileTree} {here : Place} {names : List String}
    (h : t.ensureDirectory here names = .ok t') : MoreDirectories t t' := by
  rw [ensureDirectory] at h
  split at h
  · rename_i hmade
    obtain rfl := Except.ok.inj h
    exact moreDirectories_makeDirectory hmade
  · split at h
    · obtain rfl := Except.ok.inj h
      exact .refl t
    · cases h

/-- Whether or not all directories can be made, those that were made are all that is new. -/
theorem moreDirectories_ensureDirectories (t : FileTree) (here : Place) (names : List String) :
    MoreDirectories t (t.ensureDirectories here names).2 := by
  induction names with
  | nil => exact .refl t
  | cons name above ih =>
    rw [ensureDirectories]
    split
    · rename_i hmade
      exact moreDirectories_ensureDirectory hmade
    · split
      · rename_i habove
        rw [habove] at ih
        exact ih
      · rename_i habove
        rw [habove] at ih
        split
        · rename_i hmade
          exact ih.trans (moreDirectories_ensureDirectory hmade)
        · exact ih
    · exact .refl t

theorem moreDirectories_ensureParents (t : FileTree) (here : Place) (path : String) :
    MoreDirectories t (t.ensureParents here path).2 := by
  rw [ensureParents]
  split
  · exact .refl t
  · exact moreDirectories_ensureDirectories t _ _

/-! ## Writing a file -/

/-- Of the files only that at the place a path leads to may differ, and it has the contents. -/
def WritesOnly (t t' : FileTree) (here : Place) (path contents : String) : Prop :=
  ∃ place, t'.find here path = .ok place ∧ t'.fileAt? place = some contents ∧
    ∀ other, other ≠ place → t'.fileAt? other = t.fileAt? other

/-- A file is put into the directory that all names of its path but the last lead to. -/
theorem write_eq_ok_iff {t t' : FileTree} {here : Place} {path contents : String} :
    t.write here path contents = .ok t' ↔
      ∃ name parent, checkPath path = .ok () ∧ (Path.parts path).getLast? = some name ∧
        t.directoryOf (startOf here path) (Path.parts path).dropLast = .ok parent ∧
        asksForDirectory path = false ∧ isDots name = false ∧ checkName name = .ok () ∧
        t.entry? (parent ++ [name]) ≠ some .directory ∧
        t' = t.put (parent ++ [name]) (.file contents) := by
  rw [write]
  constructor
  · intro h
    obtain ⟨_, hpath, h⟩ := bind_eq_ok_iff.mp h
    dsimp only at h
    split at h
    · cases h
    · rename_i name hname
      obtain ⟨parent, hparent, h⟩ := bind_eq_ok_iff.mp h
      split at h
      · cases h
      · rename_i hplain
        obtain ⟨_, hlength, h⟩ := bind_eq_ok_iff.mp h
        have hdots : asksForDirectory path = false ∧ isDots name = false := by
          simpa using hplain
        refine ⟨name, parent, hpath, hname, hparent, hdots.1, hdots.2, hlength, ?_⟩
        split at h
        · cases h
        · rename_i hfree
          exact ⟨hfree, (Except.ok.inj h).symm⟩
  · rintro ⟨name, parent, hpath, hname, hparent, hslash, hdots, hlength, hfree, rfl⟩
    refine bind_eq_ok_iff.mpr ⟨_, hpath, ?_⟩
    dsimp only
    rw [hname]
    refine bind_eq_ok_iff.mpr ⟨parent, hparent, ?_⟩
    rw [if_neg (by rw [hslash, hdots]; decide)]
    refine bind_eq_ok_iff.mpr ⟨_, hlength, ?_⟩
    split
    · rename_i hdirectory
      exact absurd hdirectory hfree
    · rfl

/-- A file is put at the place that its path leads to, where there is no directory. -/
theorem exists_put_of_write {t t' : FileTree} {here : Place} {path contents : String}
    (h : t.write here path contents = .ok t') :
    ∃ parent name, t.entry? parent = some .directory ∧
      t.entry? (parent ++ [name]) ≠ some .directory ∧
      t.find here path = .ok (parent ++ [name]) ∧
      t' = t.put (parent ++ [name]) (.file contents) := by
  obtain ⟨name, parent, hpath, hname, hparent, hslash, hdots, hlength, hfree, rfl⟩ :=
    write_eq_ok_iff.mp h
  obtain ⟨last, hwalk, hdirectory⟩ := bind_eq_ok_iff.mp hparent
  obtain ⟨hentry, rfl⟩ := directoryAt_eq_ok_iff.mp hdirectory
  obtain ⟨front, hparts⟩ := List.getLast?_eq_some_iff.mp hname
  have hnotDots : name ≠ "." ∧ name ≠ ".." := by
    simpa [isDots] using hdots
  refine ⟨last, name, hentry, hfree, ?_, rfl⟩
  refine bind_eq_ok_iff.mpr ⟨_, hpath, ?_⟩
  rw [hparts, List.dropLast_concat] at hwalk
  rw [if_neg (ne_true_of_eq_false hslash), hparts, walk_append]
  refine bind_eq_ok_iff.mpr ⟨_, hwalk, ?_⟩
  rw [walk_cons hentry, if_neg hnotDots.1, if_neg hnotDots.2]
  exact bind_eq_ok_iff.mpr ⟨_, hlength, rfl⟩

theorem retains_write {t t' : FileTree} {here : Place} {path contents : String}
    (h : t.write here path contents = .ok t') : Retains t t' := by
  obtain ⟨parent, name, _, hfree, _, rfl⟩ := exists_put_of_write h
  exact retains_put_file (by simp) hfree contents

theorem writesOnly_write {t t' : FileTree} {here : Place} {path contents : String}
    (h : t.write here path contents = .ok t') : WritesOnly t t' here path contents := by
  have hretains := retains_write h
  obtain ⟨parent, name, _, _, hfound, rfl⟩ := exists_put_of_write h
  have hne : parent ++ [name] ≠ [] := by simp
  refine ⟨parent ++ [name], hretains.find hfound, ?_, ?_⟩
  · apply fileAt?_of_entry?
    rw [entry?_put t hne, if_pos rfl]
  · intro other hother
    apply fileAt?_congr
    rw [entry?_put t hne, if_neg hother]

end FileTree

end DesignComponents
