import DesignComponents.Proofs.Project.Destinations

/-!
# Histories of writes

Components of one framework are written to a project one after the other, and some of the writes
fail. As long as the commands that lay their ground leave the components alone, what is found
afterwards is what was there and what was written, and each file holds what was written last. Only
a root that goes up through a directory that the writes first bring about can lead to files that
were there but out of reach.
-/

namespace DesignComponents

open FileTree

/-- What a component is rendered from; its name is made of any text. -/
structure Rendering where
  raw : String
  markup : String
  imports : List String
  extension : String
  deriving DecidableEq

def Rendering.file (r : Rendering) (f : Framework) : ComponentFile :=
  f.componentFile (componentName r.raw) r.markup r.imports r.extension

abbrev Attempt := Rendering × Except Failure String

namespace Project

variable (p : Project) (f : Framework)

/-- The attempts to write components one after the other, and the files after them. -/
def writeAll : List Rendering → FileTree → List Attempt × FileTree
  | [], t => ([], t)
  | r :: rest, t =>
    let (result, t') := p.write (r.file f) t
    let (attempts, after) := writeAll rest t'
    ((r, result) :: attempts, after)

/-! ## Commands that leave the components alone -/

/-- The files of components are the same, and those that were found are found. -/
structure KeepsComponents (t t' : FileTree) : Prop where
  file : ∀ raw extension, t'.fileAt? (p.placeFor f (componentName raw) extension) =
    t.fileAt? (p.placeFor f (componentName raw) extension)
  held : ∀ raw extension, p.holds t f (componentName raw) extension = true →
    p.holds t' f (componentName raw) extension = true

/-- No command that lays the ground for a component touches the files of components. -/
def LeavesComponents : Prop :=
  ∀ raw, ∀ scaffold ∈ f.scaffold? (componentName raw), ∀ here t,
    p.KeepsComponents f t (p.programs scaffold here t).2

theorem KeepsComponents.refl (t : FileTree) : p.KeepsComponents f t t :=
  ⟨fun _ _ => rfl, fun _ _ h => h⟩

variable {p f}

theorem leavesComponents_of_ne_angular (hf : f ≠ .angular) : p.LeavesComponents f := by
  intro raw scaffold hscaffold
  rw [Framework.scaffold?_eq_none hf] at hscaffold
  cases hscaffold

variable (hprograms : p.LeavesComponents f)
include hprograms

theorem keepsComponents_runScaffold (r : Rendering) (t : FileTree) :
    p.KeepsComponents f t (p.runScaffold (r.file f) t).2 := by
  rw [runScaffold]
  cases hscaffold : (r.file f).scaffold with
  | none => exact .refl p f t
  | some scaffold =>
    have hkept := fun here => hprograms r.raw scaffold (Option.mem_def.mpr hscaffold) here t
    cases t.directory p.workingPlace p.directory with
    | error e => exact .refl p f t
    | ok place =>
      have hplace := hkept place
      dsimp only
      split
      · rename_i hrun
        rwa [hrun] at hplace
      · rename_i hrun
        rwa [hrun] at hplace

omit hprograms

/-! ## One write -/

/-- A component is written to its place, or no file is changed once the ground is laid. -/
theorem write_outcome (p : Project) (file : ComponentFile) (t : FileTree) :
    ((p.write file t).1 = .ok (Path.join p.root file.path) ∧
        WritesOnly (p.runScaffold file t).2 (p.write file t).2 p.workingPlace
          (Path.join p.root file.path) file.contents) ∨
      ∃ e, (p.write file t).1 = .error e ∧
        SameFiles (p.runScaffold file t).2 (p.write file t).2 := by
  rcases p.runScaffold_cases file t with ⟨ground, hrun, _⟩ | ⟨e, t', hrun, _⟩
  · rw [p.write_of_laid hrun, hrun]
    rcases p.writeFile_cases file ground with ⟨t', hdone, _, hwrites⟩ | ⟨text, t', hfailed, hmore⟩
    · rw [hdone]
      exact .inl ⟨rfl, hwrites⟩
    · rw [hfailed]
      exact .inr ⟨_, rfl, hmore.sameFiles⟩
  · rw [p.write_of_not_laid hrun, hrun]
    exact .inr ⟨e, rfl, SameFiles.refl t'⟩

theorem path_of_write {r : Rendering} {t : FileTree} {path : String}
    (h : (p.write (r.file f) t).1 = .ok path) :
    path = p.pathFor f (componentName r.raw) r.extension :=
  (p.write_of_ok h).1

def contentsAt (p : Project) (f : Framework) (place : Place) : Attempt → Option String
  | (r, .ok path) =>
    if destination p.workingPlace path = place then some (r.file f).contents else none
  | (_, .error _) => none

/-- What the last of some attempts has put at a place. -/
def lastAt (p : Project) (f : Framework) (place : Place) : List Attempt → Option String
  | [] => none
  | attempt :: rest => (lastAt p f place rest).or (p.contentsAt f place attempt)

theorem holds_of_written {r : Rendering} {t : FileTree} {path : String}
    (h : (p.write (r.file f) t).1 = .ok path) :
    p.holds (p.write (r.file f) t).2 f (componentName r.raw) r.extension = true := by
  obtain ⟨rfl, ground, _, place, hfound, hcontents, _⟩ := p.write_of_ok h
  exact isFile_iff.mpr ⟨place, hfound, by rw [hcontents]; rfl⟩

include hprograms

theorem fileAt?_write (r : Rendering) (t : FileTree) (raw extension : String) :
    (p.write (r.file f) t).2.fileAt? (p.placeFor f (componentName raw) extension) =
      (p.contentsAt f (p.placeFor f (componentName raw) extension)
        (r, (p.write (r.file f) t).1)).or
        (t.fileAt? (p.placeFor f (componentName raw) extension)) := by
  have hground := (keepsComponents_runScaffold hprograms r t).file raw extension
  rcases write_outcome p (r.file f) t with
    ⟨hwritten, place, hfound, hcontents, hothers⟩ | ⟨e, hfailed, hsame⟩
  · rw [hwritten, contentsAt, ← eq_destination hfound]
    by_cases hplace : place = p.placeFor f (componentName raw) extension
    · rw [if_pos hplace, ← hplace, hcontents]
      rfl
    · rw [if_neg hplace, hothers _ (Ne.symm hplace), hground]
      rfl
  · rw [hfailed, hsame _, hground]
    rfl

theorem held_write (r : Rendering) {t : FileTree} {raw extension : String}
    (h : p.holds t f (componentName raw) extension = true) :
    p.holds (p.write (r.file f) t).2 f (componentName raw) extension = true :=
  (p.write_cases (r.file f) t).1.isFile
    ((keepsComponents_runScaffold hprograms r t).held raw extension h)

/-! ## Runs -/

theorem fileAt?_writeAll (renderings : List Rendering) (t : FileTree) (raw extension : String) :
    (p.writeAll f renderings t).2.fileAt? (p.placeFor f (componentName raw) extension) =
      (p.lastAt f (p.placeFor f (componentName raw) extension)
        (p.writeAll f renderings t).1).or
        (t.fileAt? (p.placeFor f (componentName raw) extension)) := by
  induction renderings generalizing t with
  | nil => rfl
  | cons r rest ih =>
    rw [writeAll, lastAt, Option.or_assoc, ← fileAt?_write hprograms r t raw extension]
    exact ih (p.write (r.file f) t).2

theorem held_writeAll (renderings : List Rendering) {t : FileTree} {raw extension : String}
    (h : p.holds t f (componentName raw) extension = true) :
    p.holds (p.writeAll f renderings t).2 f (componentName raw) extension = true := by
  induction renderings generalizing t with
  | nil => exact h
  | cons r rest ih => exact ih (held_write hprograms r h)

/-- Whatever was written at some point has its own path and is held at the end. -/
theorem held_of_mem_writeAll {renderings : List Rendering} {t : FileTree} {r : Rendering}
    {path : String} (h : (r, .ok path) ∈ (p.writeAll f renderings t).1) :
    r ∈ renderings ∧ path = p.pathFor f (componentName r.raw) r.extension ∧
      p.holds (p.writeAll f renderings t).2 f (componentName r.raw) r.extension = true := by
  induction renderings generalizing t with
  | nil => cases h
  | cons first rest ih =>
    rcases List.mem_cons.mp h with hfirst | hrest
    · obtain ⟨rfl, hwritten⟩ := Prod.mk.inj hfirst
      exact ⟨List.mem_cons_self, path_of_write hwritten.symm,
        held_writeAll hprograms rest (holds_of_written hwritten.symm)⟩
    · obtain ⟨hmem, hpath, hheld⟩ := ih hrest
      exact ⟨List.mem_cons_of_mem first hmem, hpath, hheld⟩

omit hprograms

theorem isSome_lastAt_iff {place : Place} {attempts : List Attempt} :
    (p.lastAt f place attempts).isSome = true ↔
      ∃ r path, (r, .ok path) ∈ attempts ∧ destination p.workingPlace path = place := by
  induction attempts with
  | nil => simp [lastAt]
  | cons attempt rest ih =>
    obtain ⟨r, result⟩ := attempt
    rw [lastAt, Option.isSome_or, Bool.or_eq_true, ih]
    cases result with
    | error e => simp [contentsAt]
    | ok path =>
      rw [contentsAt]
      constructor
      · rintro (⟨r', path', hmem, hplace⟩ | hsome)
        · exact ⟨r', path', List.mem_cons_of_mem _ hmem, hplace⟩
        · split at hsome
          · rename_i hplace
            exact ⟨r, path, List.mem_cons_self, hplace⟩
          · cases hsome
      · rintro ⟨r', path', hmem, hplace⟩
        rcases List.mem_cons.mp hmem with hfirst | hmem
        · obtain ⟨rfl, hpath⟩ := Prod.mk.inj hfirst
          obtain rfl := Except.ok.inj hpath
          right
          rw [if_pos hplace]
          rfl
        · exact .inl ⟨r', path', hmem, hplace⟩

theorem lastAt_append {r : Rendering} {path : String} {before behind : List Attempt}
    (h : p.lastAt f (destination p.workingPlace path) behind = none) :
    p.lastAt f (destination p.workingPlace path) (before ++ (r, .ok path) :: behind) =
      some (r.file f).contents := by
  induction before with
  | nil =>
    rw [List.nil_append, lastAt, h, contentsAt, if_pos rfl]
    rfl
  | cons first before ih =>
    rw [List.cons_append, lastAt, ih]
    rfl

/-! ## The account of a history -/

/-- A component is found after some attempts if it was found before or its path was written. -/
def FoundIffWritten (p : Project) (f : Framework) (t : FileTree) (attempts : List Attempt)
    (after : FileTree) (raw extension : String) : Prop :=
  p.holds after f (componentName raw) extension = true ↔
    p.holds t f (componentName raw) extension = true ∨
      ∃ r, (r, .ok (p.pathFor f (componentName raw) extension)) ∈ attempts

/-- How what is found after some attempts comes of what was there before and what was written. -/
structure Accounts (p : Project) (f : Framework) (t : FileTree) (attempts : List Attempt)
    (after : FileTree) : Prop where
  /-- A write that succeeds gives the path at which the component is looked up. -/
  returned : ∀ r path, (r, .ok path) ∈ attempts →
    path = p.pathFor f (componentName r.raw) r.extension
  /-- A component is held where its path leads to a file that was there or that was written. -/
  held_iff : ∀ raw extension, p.holds after f (componentName raw) extension = true ↔
    after.find p.workingPlace (p.pathFor f (componentName raw) extension) =
        .ok (p.placeFor f (componentName raw) extension) ∧
      ((t.fileAt? (p.placeFor f (componentName raw) extension)).isSome = true ∨
        ∃ r path, (r, .ok path) ∈ attempts ∧
          destination p.workingPlace path = p.placeFor f (componentName raw) extension)
  /-- Without slashes in extensions a file that was written is the one with the same path. -/
  held_plain_iff : ∀ raw extension, '/' ∉ extension.toList →
    (p.holds after f (componentName raw) extension = true ↔
      (after.find p.workingPlace (p.pathFor f (componentName raw) extension) =
          .ok (p.placeFor f (componentName raw) extension) ∧
        (t.fileAt? (p.placeFor f (componentName raw) extension)).isSome = true) ∨
      ∃ r, (r, .ok (p.pathFor f (componentName raw) extension)) ∈ attempts)
  /-- Below a steady root what was there is what was held. -/
  held_steady_iff : t.IsSteady p.workingPlace p.root → ∀ raw extension, '/' ∉ extension.toList →
    p.FoundIffWritten f t attempts after raw extension
  /-- A file holds what was written to its path last. -/
  contents : ∀ before r path behind, attempts = before ++ (r, .ok path) :: behind →
    (∀ r', (r', .ok path) ∉ behind) → after.read p.workingPlace path = .ok (r.file f).contents
  /-- A component that is not written keeps its contents. -/
  untouched : ∀ raw extension contents, '/' ∉ extension.toList →
    (∀ r, (r, .ok (p.pathFor f (componentName raw) extension)) ∉ attempts) →
      t.read p.workingPlace (p.pathFor f (componentName raw) extension) = .ok contents →
        after.read p.workingPlace (p.pathFor f (componentName raw) extension) = .ok contents

section Account

variable {t : FileTree} {renderings : List Rendering}

include hprograms

theorem held_writeAll_iff (raw extension : String) :
    p.holds (p.writeAll f renderings t).2 f (componentName raw) extension = true ↔
      (p.writeAll f renderings t).2.find p.workingPlace
          (p.pathFor f (componentName raw) extension) =
          .ok (p.placeFor f (componentName raw) extension) ∧
        ((t.fileAt? (p.placeFor f (componentName raw) extension)).isSome = true ∨
          ∃ r path, (r, .ok path) ∈ (p.writeAll f renderings t).1 ∧
            destination p.workingPlace path = p.placeFor f (componentName raw) extension) := by
  have hfile := fileAt?_writeAll hprograms renderings t raw extension
  rw [holds, isFile_iff_destination, ← isSome_lastAt_iff]
  refine and_congr_right fun _ => ?_
  change ((p.writeAll f renderings t).2.fileAt? (p.placeFor f (componentName raw) extension)).isSome =
    true ↔ _
  rw [hfile, Option.isSome_or, Bool.or_eq_true, or_comm]

/-- What is read at the path of a component that is held is what was written there last, or what
was there before. -/
theorem read_writeAll {raw extension contents : String}
    (hheld : p.holds (p.writeAll f renderings t).2 f (componentName raw) extension = true)
    (hcontents : (p.lastAt f (p.placeFor f (componentName raw) extension)
      (p.writeAll f renderings t).1).or
        (t.fileAt? (p.placeFor f (componentName raw) extension)) = some contents) :
    (p.writeAll f renderings t).2.read p.workingPlace
      (p.pathFor f (componentName raw) extension) = .ok contents := by
  obtain ⟨hfound, _⟩ := isFile_iff_destination.mp hheld
  refine read_iff_destination.mpr ⟨hfound, ?_⟩
  rw [← hcontents, ← fileAt?_writeAll hprograms renderings t raw extension]
  rfl

variable (hplain : ∀ r ∈ renderings, '/' ∉ r.extension.toList)
include hplain

/-- A path that leads to a component that was written is the path at which it was written. -/
theorem path_eq_of_destination {r : Rendering} {path : String}
    (hmem : (r, .ok path) ∈ (p.writeAll f renderings t).1) {raw extension : String}
    (hextension : '/' ∉ extension.toList)
    (h : destination p.workingPlace path = p.placeFor f (componentName raw) extension) :
    path = p.pathFor f (componentName raw) extension := by
  obtain ⟨hr, hpath, _⟩ := held_of_mem_writeAll hprograms hmem
  rw [hpath] at h ⊢
  exact (p.placeFor_inj f (hplain r hr) hextension).mp h

theorem lastAt_eq_none {raw extension : String} (hextension : '/' ∉ extension.toList)
    {attempts : List Attempt} (hsub : attempts ⊆ (p.writeAll f renderings t).1)
    (h : ∀ r, (r, .ok (p.pathFor f (componentName raw) extension)) ∉ attempts) :
    p.lastAt f (p.placeFor f (componentName raw) extension) attempts = none := by
  rw [← Option.not_isSome_iff_eq_none, isSome_lastAt_iff]
  rintro ⟨r, path, hmem, hplace⟩
  have hpath := path_eq_of_destination hprograms hplain (hsub hmem) hextension hplace
  exact h r (hpath ▸ hmem)

theorem held_plain_writeAll_iff {raw extension : String} (hextension : '/' ∉ extension.toList) :
    p.holds (p.writeAll f renderings t).2 f (componentName raw) extension = true ↔
      ((p.writeAll f renderings t).2.find p.workingPlace
          (p.pathFor f (componentName raw) extension) =
          .ok (p.placeFor f (componentName raw) extension) ∧
        (t.fileAt? (p.placeFor f (componentName raw) extension)).isSome = true) ∨
      ∃ r, (r, .ok (p.pathFor f (componentName raw) extension)) ∈
        (p.writeAll f renderings t).1 := by
  constructor
  · intro h
    obtain ⟨hfound, hthere | ⟨r, path, hmem, hplace⟩⟩ :=
      (held_writeAll_iff hprograms raw extension).mp h
    · exact .inl ⟨hfound, hthere⟩
    · have hpath := path_eq_of_destination hprograms hplain hmem hextension hplace
      exact .inr ⟨r, hpath ▸ hmem⟩
  · rintro (⟨hfound, hthere⟩ | ⟨r, hmem⟩)
    · exact (held_writeAll_iff hprograms raw extension).mpr ⟨hfound, .inl hthere⟩
    · obtain ⟨_, hpath, hheld⟩ := held_of_mem_writeAll hprograms hmem
      rw [holds, hpath]
      exact hheld

theorem accounts_writeAll (ht : t.Grounded) :
    p.Accounts f t (p.writeAll f renderings t).1 (p.writeAll f renderings t).2 where
  returned r path hmem := (held_of_mem_writeAll hprograms hmem).2.1
  held_iff raw extension := held_writeAll_iff hprograms raw extension
  held_plain_iff raw extension hextension := held_plain_writeAll_iff hprograms hplain hextension
  held_steady_iff hroot raw extension hextension := by
    constructor
    · intro hheld
      rcases (held_plain_writeAll_iff hprograms hplain hextension).mp hheld with
        ⟨_, hthere⟩ | hwritten
      · exact .inl (p.holds_of_file f ht hroot hextension hheld hthere)
      · exact .inr hwritten
    · rintro (hbefore | hwritten)
      · exact held_writeAll hprograms renderings hbefore
      · exact (held_plain_writeAll_iff hprograms hplain hextension).mpr (.inr hwritten)
  contents before r path behind hattempts hlast := by
    have hmem : (r, .ok path) ∈ (p.writeAll f renderings t).1 := by
      rw [hattempts]
      exact List.mem_append_right before List.mem_cons_self
    have hsub : behind ⊆ (p.writeAll f renderings t).1 := by
      rw [hattempts]
      exact fun _ hattempt => List.mem_append_right before (List.mem_cons_of_mem _ hattempt)
    obtain ⟨hr, rfl, hheld⟩ := held_of_mem_writeAll hprograms hmem
    have hnone := lastAt_eq_none hprograms hplain (hplain r hr) hsub hlast
    refine read_writeAll hprograms hheld ?_
    rw [hattempts, placeFor, lastAt_append hnone]
    rfl
  untouched raw extension contents hextension hnot hread := by
    obtain ⟨hfound, hcontents⟩ := read_iff_destination.mp hread
    have hbefore : p.holds t f (componentName raw) extension = true :=
      isFile_iff_destination.mpr ⟨hfound, by rw [hcontents]; rfl⟩
    have hnone := lastAt_eq_none hprograms hplain (t := t) hextension (List.Subset.refl _) hnot
    refine read_writeAll hprograms (held_writeAll hprograms renderings hbefore) ?_
    rw [hnone]
    exact hcontents

/-- The writer of components and their look-up agree over any history of writes, and a write that
fails changes no file but those that the command changed that was to lay the ground, which are none
of the components. -/
theorem writer_agrees_with_lookup (ht : t.Grounded) :
    p.Accounts f t (p.writeAll f renderings t).1 (p.writeAll f renderings t).2 ∧
      ∀ (r : Rendering) t' e, (p.write (r.file f) t').1 = .error e →
        SameFiles (p.runScaffold (r.file f) t').2 (p.write (r.file f) t').2 ∧
          (∀ raw extension,
            (p.write (r.file f) t').2.fileAt? (p.placeFor f (componentName raw) extension) =
              t'.fileAt? (p.placeFor f (componentName raw) extension)) ∧
          (f ≠ .angular → SameFiles t' (p.write (r.file f) t').2) := by
  refine ⟨accounts_writeAll hprograms hplain ht, fun r t' e hfailed => ?_⟩
  have hsame : SameFiles (p.runScaffold (r.file f) t').2 (p.write (r.file f) t').2 := by
    rcases write_outcome p (r.file f) t' with ⟨hwritten, _⟩ | ⟨_, _, hsame⟩
    · rw [hwritten] at hfailed
      cases hfailed
    · exact hsame
  refine ⟨hsame, fun raw extension => ?_, fun hf => ?_⟩
  · rw [hsame]
    exact (keepsComponents_runScaffold hprograms r t').file raw extension
  · have hscaffold : (r.file f).scaffold = none := Framework.scaffold?_eq_none hf _
    have hrun : p.runScaffold (r.file f) t' = (.ok (), t') := by rw [runScaffold, hscaffold]
    rwa [hrun] at hsame

end Account

/-! ## A command that writes a log -/

def logPlace : Place := ["app", "log.txt"]

/-- Adds a log where there is nothing yet; for one component it fails all the same. -/
def logging : Programs := fun scaffold _ t =>
  (.exited (if scaffold.arguments.contains "broken" then 1 else 0),
    if (t.entry? logPlace).isSome then t else t.put logPlace (.file "generated"))

def loggedProject : Project := ⟨["app"], ".", "src", logging⟩

theorem leavesComponents_loggedProject : loggedProject.LeavesComponents .angular := by
  intro raw scaffold _ here t
  rw [show loggedProject.programs = logging from rfl, logging]
  dsimp only
  split
  · exact .refl loggedProject .angular t
  · rename_i hnone
    have hfree : t.entry? logPlace ≠ some .directory := by
      intro hdirectory
      rw [hdirectory] at hnone
      exact hnone rfl
    refine ⟨fun other extension => ?_, fun other extension hheld => ?_⟩
    · have hapart : loggedProject.placeFor .angular (componentName other) extension ≠ logPlace := by
        have hextension : '/' ∉ "ts".toList := by decide
        have hplace := loggedProject.placeFor_eq .angular other hextension
        have hroot : destination loggedProject.workingPlace loggedProject.root = ["app", "src"] := by
          decide +kernel
        rw [(Framework.filePath_angular other "ts").2.2, hroot] at hplace
        intro hsame
        have hlength := congrArg List.length (hplace.symm.trans hsame)
        simp [logPlace] at hlength
      apply fileAt?_congr
      rw [entry?_put t (by decide), if_neg hapart]
    · exact (retains_put_file (by decide) hfree "generated").isFile hheld

theorem grounded_appTree : Component.appTree.Grounded := by
  have hroot : FileTree.empty.entry? [] = some .directory := rfl
  exact grounded_empty.put hroot fun _ => rfl

def views : List Rendering :=
  [⟨"HTMLView", "<br />", [], "ts"⟩, ⟨"broken", "<p />", [], "ts"⟩, ⟨"Htmlview", "<hr />", [], "ts"⟩]

def viewAttempts : List Attempt :=
  [(⟨"HTMLView", "<br />", [], "ts"⟩, .ok "src/htmlview/htmlview.component.html"),
    (⟨"broken", "<p />", [], "ts"⟩,
      .error (.scaffold "ng generate component broken" "exit status: 1")),
    (⟨"Htmlview", "<hr />", [], "ts"⟩, .ok "src/htmlview/htmlview.component.html")]

/-- Of two views with one file the second is read, and the one that is broken is not found. -/
theorem views_are_accounted_for :
    loggedProject.LeavesComponents .angular ∧ Component.appTree.Grounded ∧
      (∀ r ∈ views, '/' ∉ r.extension.toList) ∧
      (loggedProject.writeAll .angular views Component.appTree).1 = viewAttempts ∧
      (loggedProject.writeAll .angular views Component.appTree).2.read ["app"]
        "src/htmlview/htmlview.component.html" = .ok "<hr />\n" ∧
      loggedProject.holds (loggedProject.writeAll .angular views Component.appTree).2 .angular
        (componentName "broken") "ts" = false := by
  have hplain : ∀ r ∈ views, '/' ∉ r.extension.toList := by decide
  have haccount := (writer_agrees_with_lookup leavesComponents_loggedProject hplain
    grounded_appTree).1
  have hattempts : (loggedProject.writeAll .angular views Component.appTree).1 = viewAttempts := by
    decide +kernel
  have hsteady : Component.appTree.IsSteady loggedProject.workingPlace loggedProject.root :=
    .inl (by decide +kernel)
  have hbroken : ¬loggedProject.holds Component.appTree .angular (componentName "broken") "ts" =
      true := by
    decide +kernel
  refine ⟨leavesComponents_loggedProject, grounded_appTree, hplain, hattempts, ?_, ?_⟩
  · exact haccount.contents (viewAttempts.take 2) ⟨"Htmlview", "<hr />", [], "ts"⟩ _ []
      hattempts fun _ => List.not_mem_nil
  · rw [Bool.eq_false_iff]
    intro hfound
    rcases (haccount.held_steady_iff hsteady "broken" "ts" (by decide)).mp hfound with
      hbefore | ⟨r, hwritten⟩
    · exact hbroken hbefore
    · have hpath : loggedProject.pathFor .angular (componentName "broken") "ts" =
          "src/broken/broken.component.html" := by
        decide +kernel
      rw [hattempts, hpath, viewAttempts] at hwritten
      simp at hwritten

/-! ## Paths that climb -/

def pageRendering : Rendering := ⟨"Page", "", [], "jsx"⟩

def menuBeside : FileTree := ⟨[(["b"], .directory), (["b", "Menu.x"], .directory)]⟩

def cardRendering : Rendering := ⟨"Card", "", [], "jsx"⟩

/-- The page brings about the directory through which the root goes up, and the card is found that
lay beyond it. An extension that climbs leads to a card that is written at another path. Neither
was found before or is written at its path. -/
theorem climbing_paths_find_card :
    (climbingProject.LeavesComponents .react ∧ cardBeside.Grounded ∧
        (climbingProject.writeAll .react [pageRendering] cardBeside).1 =
          [(pageRendering, .ok "a/../b/Page.jsx")] ∧
        ¬climbingProject.FoundIffWritten .react cardBeside
          (climbingProject.writeAll .react [pageRendering] cardBeside).1
          (climbingProject.writeAll .react [pageRendering] cardBeside).2 "Card" "jsx") ∧
      menuProject.LeavesComponents .react ∧ menuBeside.Grounded ∧
        (menuProject.writeAll .react [cardRendering] menuBeside).1 =
          [(cardRendering, .ok "b/Card.jsx")] ∧
        ¬menuProject.FoundIffWritten .react menuBeside
          (menuProject.writeAll .react [cardRendering] menuBeside).1
          (menuProject.writeAll .react [cardRendering] menuBeside).2 "Menu" "x/../Card.jsx" := by
  have hpage : (climbingProject.writeAll .react [pageRendering] cardBeside).1 =
      [(pageRendering, .ok "a/../b/Page.jsx")] := by
    decide +kernel
  have hcard : (menuProject.writeAll .react [cardRendering] menuBeside).1 =
      [(cardRendering, .ok "b/Card.jsx")] := by
    decide +kernel
  refine ⟨⟨leavesComponents_of_ne_angular (by decide), grounded_beside _ _, hpage, ?_⟩,
    leavesComponents_of_ne_angular (by decide), grounded_beside _ _, hcard, ?_⟩
  · have hpath : climbingProject.pathFor .react (componentName "Card") "jsx" = "a/../b/Card.jsx" := by
      decide +kernel
    have hbefore : climbingProject.holds cardBeside .react (componentName "Card") "jsx" = false := by
      decide +kernel
    have hafter : climbingProject.holds
        (climbingProject.writeAll .react [pageRendering] cardBeside).2 .react
        (componentName "Card") "jsx" = true := by
      decide +kernel
    rw [FoundIffWritten, hafter, hbefore, hpage, hpath]
    simp
  · have hpath : menuProject.pathFor .react (componentName "Menu") "x/../Card.jsx" =
        "b/Menu.x/../Card.jsx" := by
      decide +kernel
    have hbefore : menuProject.holds menuBeside .react (componentName "Menu") "x/../Card.jsx" =
        false := by
      decide +kernel
    have hafter : menuProject.holds (menuProject.writeAll .react [cardRendering] menuBeside).2
        .react (componentName "Menu") "x/../Card.jsx" = true := by
      decide +kernel
    rw [FoundIffWritten, hafter, hbefore, hcard, hpath]
    simp

end Project

end DesignComponents
