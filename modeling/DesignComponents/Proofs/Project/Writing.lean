import DesignComponents.Project.Store
import DesignComponents.Proofs.Project.FileTrees

/-!
# What writing a component does to a project

First the command is run that lays the ground for the component, if there is one. If it succeeds
the component is written on the ground that it laid, and all that changes then is the one file.
If the component cannot be written the ground stays as it was laid.
-/

namespace DesignComponents

open FileTree

/-- A program that does not succeed leaves the files as they were. -/
def Programs.FailHarmlessly (programs : Programs) : Prop :=
  ∀ scaffold place t, (programs scaffold place t).1 ≠ .exited 0 →
    SameFiles t (programs scaffold place t).2

namespace Project

variable (p : Project) {file : ComponentFile} {t : FileTree}

/-! ## The ground -/

/-- `ground` are the files once the command has succeeded that has to lay the ground. -/
def LaysGround (scaffold? : Option Scaffold) (t ground : FileTree) : Prop :=
  match scaffold? with
  | none => ground = t
  | some scaffold =>
    ∃ place, t.directory p.workingPlace p.directory = .ok place ∧
      p.programs scaffold place t = (.exited 0, ground)

theorem runScaffold_cases (file : ComponentFile) (t : FileTree) :
    (∃ ground, p.runScaffold file t = (.ok (), ground) ∧ p.LaysGround file.scaffold t ground) ∨
      ∃ e t', p.runScaffold file t = (.error e, t') ∧
        (p.programs.FailHarmlessly → SameFiles t t') := by
  rw [runScaffold]
  cases file.scaffold with
  | none => exact .inl ⟨t, rfl, rfl⟩
  | some scaffold =>
    cases hplace : t.directory p.workingPlace p.directory with
    | error e => exact .inr ⟨_, t, rfl, fun _ => SameFiles.refl t⟩
    | ok place =>
      rcases hrun : p.programs scaffold place t with ⟨ending, ground⟩
      by_cases hsuccess : ending = .exited 0
      · subst hsuccess
        left
        refine ⟨ground, ?_, place, hplace, hrun⟩
        simp only [hrun]
      · right
        have hfailed : p.programs.FailHarmlessly → SameFiles t ground := by
          intro hprograms
          have hsame := hprograms scaffold place t
          rw [hrun] at hsame
          exact hsame hsuccess
        refine ⟨.scaffold scaffold.line ending.message, ground, ?_, hfailed⟩
        dsimp only
        rw [hrun]
        split
        · rename_i hend
          exact absurd (Prod.mk.inj hend).1 hsuccess
        · rename_i hend
          obtain ⟨rfl, rfl⟩ := Prod.mk.inj hend
          rfl

theorem write_of_laid {ground : FileTree} (h : p.runScaffold file t = (.ok (), ground)) :
    p.write file t = p.writeFile file ground := by
  rw [write, h]

theorem write_of_not_laid {e : Failure} {t' : FileTree}
    (h : p.runScaffold file t = (.error e, t')) : p.write file t = (.error e, t') := by
  rw [write, h]

/-! ## The file -/

/-- The file is written and nothing else, or it is not and all that may be new are directories. -/
theorem writeFile_cases (file : ComponentFile) (t : FileTree) :
    (∃ t', p.writeFile file t = (.ok (Path.join p.root file.path), t') ∧ Retains t t' ∧
        WritesOnly t t' p.workingPlace (Path.join p.root file.path) file.contents) ∨
      ∃ text t', p.writeFile file t = (.error (.files text), t') ∧ MoreDirectories t t' := by
  rw [writeFile]
  have hparents := t.moreDirectories_ensureParents p.workingPlace (Path.join p.root file.path)
  rcases hmade : t.ensureParents p.workingPlace (Path.join p.root file.path) with ⟨e | _, t'⟩
  · rw [hmade] at hparents
    exact .inr ⟨e.message, t', rfl, hparents⟩
  · rw [hmade] at hparents
    cases hwritten : t'.write p.workingPlace (Path.join p.root file.path) file.contents with
    | error e => exact .inr ⟨e.message, t', by simp only [hwritten], hparents⟩
    | ok t'' =>
      left
      refine ⟨t'', by simp only [hwritten], ?_, ?_⟩
      · exact hparents.retains.trans (retains_write hwritten)
      · obtain ⟨place, hfound, hcontents, hothers⟩ := writesOnly_write hwritten
        refine ⟨place, hfound, hcontents, fun other hother => ?_⟩
        exact (hothers other hother).trans (hparents.sameFiles other)

/-! ## The file and its ground -/

theorem write_of_error {e : Failure} (hprograms : p.programs.FailHarmlessly)
    (h : (p.write file t).1 = .error e) :
    SameFiles t (p.write file t).2 ∨
      (∃ text, e = .files text) ∧
        ∃ ground, p.LaysGround file.scaffold t ground ∧ SameFiles ground (p.write file t).2 := by
  rcases p.runScaffold_cases file t with ⟨ground, hrun, hlaid⟩ | ⟨e', t', hrun, hsame⟩
  · rw [p.write_of_laid hrun] at h ⊢
    rcases p.writeFile_cases file ground with ⟨t', hdone, _⟩ | ⟨text, t', hfailed, hmore⟩
    · rw [hdone] at h
      cases h
    · -- At most directories above the file were added to the ground.
      rw [hfailed] at h ⊢
      exact .inr ⟨⟨text, (Except.error.inj h).symm⟩, ground, hlaid, hmore.sameFiles⟩
  · rw [p.write_of_not_laid hrun]
    exact .inl (hsame hprograms)

theorem write_of_ok {path : String} (h : (p.write file t).1 = .ok path) :
    path = Path.join p.root file.path ∧
      ∃ ground, p.LaysGround file.scaffold t ground ∧
        WritesOnly ground (p.write file t).2 p.workingPlace path file.contents := by
  rcases p.runScaffold_cases file t with ⟨ground, hrun, hlaid⟩ | ⟨e, t', hrun, _⟩
  · rw [p.write_of_laid hrun] at h ⊢
    rcases p.writeFile_cases file ground with ⟨t', hdone, _, hwrites⟩ | ⟨text, t', hfailed, _⟩
    · rw [hdone] at h ⊢
      obtain rfl := Except.ok.inj h
      exact ⟨rfl, ground, hlaid, hwrites⟩
    · rw [hfailed] at h
      cases h
  · rw [p.write_of_not_laid hrun] at h
    cases h

theorem read_write_of_ok {written : String} (h : (p.write file t).1 = .ok written) :
    (p.write file t).2.read p.workingPlace (Path.join p.root file.path) = .ok file.contents := by
  obtain ⟨rfl, ground, _, place, hfound, hcontents, _⟩ := p.write_of_ok h
  exact read_eq_ok_iff.mpr ⟨place, hfound, hcontents⟩

theorem write_cases (file : ComponentFile) (t : FileTree) :
    Retains (p.runScaffold file t).2 (p.write file t).2 ∧
      ∀ place, (p.write file t).2.fileAt? place ≠ (p.runScaffold file t).2.fileAt? place →
        (p.write file t).2.find p.workingPlace (Path.join p.root file.path) = .ok place := by
  rcases hrun : p.runScaffold file t with ⟨e | _, ground⟩
  · rw [p.write_of_not_laid hrun]
    exact ⟨(MoreDirectories.refl ground).retains, fun place hother => absurd rfl hother⟩
  · rw [p.write_of_laid hrun]
    rcases p.writeFile_cases file ground with
      ⟨t', hdone, hretains, place, hfound, _, hothers⟩ | ⟨text, t', hfailed, hmore⟩
    · rw [hdone]
      refine ⟨hretains, fun other hother => ?_⟩
      by_cases hplace : other = place
      · rw [hplace]
        exact hfound
      · exact absurd (hothers other hplace) hother
    · rw [hfailed]
      exact ⟨hmore.retains, fun place hother => absurd (hmore.sameFiles place) hother⟩

theorem retains_write_of_no_scaffold (h : file.scaffold = none) :
    Retains t (p.write file t).2 := by
  have hrun : p.runScaffold file t = (.ok (), t) := by rw [runScaffold, h]
  have hretains := (p.write_cases file t).1
  rwa [hrun] at hretains

end Project

end DesignComponents
