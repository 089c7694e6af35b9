import DesignComponents.Command.Create
import DesignComponents.Proofs.Conversion.Creation
import DesignComponents.Proofs.Project.Writing

/-!
# What a creating command leaves behind

A command that creates a component does it as a whole or not at all. Before its first request
everything else is settled; a dry run touches nothing; a run that fails leaves the files alone,
but for what a command did that laid the ground and succeeded before the component could not be
written; and a run that succeeds writes one file, with the contents that a dry run shows.
-/

namespace DesignComponents

open FileTree

namespace CommandEnd

def Reports (ending : CommandEnd) (s : Surroundings) (format : OutputFormat) (o : Outcome) :
    Prop :=
  ending.status = 0 ∧ ending.output = printed s format o.toJson (o.text true)

def Complains (ending : CommandEnd) (s : Surroundings) (format : OutputFormat) (e : Failure) :
    Prop :=
  ending.status = failureStatus ∧
    ending.output = printed s format (Complaint.ofFailure e).toJson ((Complaint.ofFailure e).text true)

variable {s : Surroundings} {format : OutputFormat} {notes : String} {files : FileTree}
  {requests : List Request}

theorem reports_ofReport (o : Outcome) :
    (ofReport s format (.ok o) notes files requests).Reports s format o := ⟨rfl, rfl⟩

theorem complains_ofReport (e : Failure) :
    (ofReport s format (.error e) notes files requests).Complains s format e := ⟨rfl, rfl⟩

theorem files_ofReport (result : Except Failure Outcome) :
    (ofReport s format result notes files requests).files = files := by
  cases result with
  | error e => rfl
  | ok o => rfl

end CommandEnd

namespace CreateRequest

open CommandEnd

/-- All that is settled before the first request: the plan, and the client with its token. -/
def settle (r : CreateRequest) (s : Surroundings) (configPath : Option String) (t : FileTree) :
    Except Failure (CreatePlan × Client) := do
  let p ← r.plan s configPath t
  let client ← r.client s p.config
  pure (p, client)

variable (r : CreateRequest) (s : Surroundings) (verbose : Bool) (configPath : Option String)
  (t : FileTree)

/-- What is settled does not depend on whether the component is to be written. -/
def rehearsed : CreateRequest := { r with dryRun := true }

theorem run_of_unsettled {e : Failure} (h : r.settle s configPath t = .error e) :
    ∃ notes, r.run s verbose configPath t = .ofReport s r.format (.error e) notes t [] := by
  rw [settle] at h
  rw [run]
  cases hplan : r.plan s configPath t with
  | error e' =>
    rw [hplan] at h
    obtain rfl := Except.error.inj h
    exact ⟨"", rfl⟩
  | ok p =>
    rw [hplan] at h
    cases hclient : r.client s p.config with
    | error e' =>
      have herror : (Except.error e' : Except Failure (CreatePlan × Client)) = .error e := by
        rw [← h]
        simp [bind, Except.bind, hclient]
      obtain rfl := Except.error.inj herror
      exact ⟨note verbose configPath p, by simp only [hclient]⟩
    | ok client => simp [bind, Except.bind, hclient, pure, Except.pure] at h

theorem run_of_settled {p : CreatePlan} {client : Client}
    (h : r.settle s configPath t = .ok (p, client)) :
    r.run s verbose configPath t =
      .ofReport s r.format ((r.make s p client t).1.map .create) (note verbose configPath p)
        (r.make s p client t).2.2
        ((r.make s p client t).2.1.flatMap (client.requestsOf s.web)) := by
  obtain ⟨p', hplan, h⟩ := bind_eq_ok_iff.mp h
  obtain ⟨client', hclient, h⟩ := bind_eq_ok_iff.mp h
  obtain ⟨rfl, rfl⟩ := Prod.mk.inj (Except.ok.inj h)
  rw [run, hplan]
  simp only [hclient]

/-! ## Rendering and writing -/

section Make

variable (p : CreatePlan) (client : Client)

/-- The component as it is rendered with the components that are there. -/
def rendered : Except Failure Component :=
  (Component.render (client.source s.web) (r.options p)
    ((r.project s p).store.catalogue t (r.options p)) p.link.fileKey p.link.nodeId).1

theorem make_of_dryRun (h : r.dryRun = true) :
    (r.make s p client t).1 = (r.rendered s t p client).map (r.creation p.link · none) ∧
      (r.make s p client t).2.2 = t := by
  rw [make, if_pos h, rendered]
  dsimp only
  rcases Component.render (client.source s.web) (r.options p)
    ((r.project s p).store.catalogue t (r.options p)) p.link.fileKey p.link.nodeId with
    ⟨result, calls⟩
  exact ⟨rfl, rfl⟩

theorem make_of_not_rendered {e : Failure} (h : r.rendered s t p client = .error e) :
    (r.make s p client t).1 = .error e ∧ (r.make s p client t).2.2 = t := by
  cases hdry : r.dryRun with
  | true =>
    obtain ⟨hresult, hfiles⟩ := r.make_of_dryRun s t p client hdry
    rw [h] at hresult
    exact ⟨hresult, hfiles⟩
  | false =>
    rw [make, if_neg (ne_true_of_eq_false hdry), Store.create_of_error _ _ _ _ _ _ h]
    exact ⟨rfl, rfl⟩

theorem make_of_rendered (hdry : r.dryRun = false) {c : Component}
    (h : r.rendered s t p client = .ok c) :
    (r.make s p client t).1 = ((r.project s p).write c.file t).1.map
        (fun path => r.creation p.link c (some path)) ∧
      (r.make s p client t).2.2 = ((r.project s p).write c.file t).2 := by
  rw [make, if_neg (ne_true_of_eq_false hdry), Store.create_of_ok _ _ _ _ _ _ h]
  refine ⟨?_, rfl⟩
  change (((r.project s p).write c.file t).1.map _).map _ = _
  cases ((r.project s p).write c.file t).1 with
  | error e => rfl
  | ok path => rfl

theorem file_of_rendered {c : Component} (h : r.rendered s t p client = .ok c) :
    c.framework = p.settings.framework ∧ c.extension = p.settings.extension ∧
      c.file.path = p.settings.framework.filePath c.file.name p.settings.extension ∧
      c.file.scaffold = p.settings.framework.scaffold? c.file.name := by
  obtain ⟨root, _, rfl⟩ := (Component.render_eq_ok_iff _ _ _ _ _).mp h
  exact ⟨rfl, rfl, rfl, rfl⟩

/-- A component that could not be made has changed no file, unless the ground for it was laid. -/
theorem files_of_failed_make (hprograms : s.programs.FailHarmlessly) {e : Failure}
    (h : (r.make s p client t).1 = .error e) :
    SameFiles t (r.make s p client t).2.2 ∨
      ∃ text name scaffold ground, e = .files text ∧
        p.settings.framework.scaffold? name = some scaffold ∧
        (r.project s p).LaysGround (some scaffold) t ground ∧
        SameFiles ground (r.make s p client t).2.2 := by
  cases hrendered : r.rendered s t p client with
  | error e' =>
    rw [(r.make_of_not_rendered s t p client hrendered).2]
    exact .inl (SameFiles.refl t)
  | ok c =>
    cases hdry : r.dryRun with
    | true =>
      rw [(r.make_of_dryRun s t p client hdry).2]
      exact .inl (SameFiles.refl t)
    | false =>
      obtain ⟨hresult, hfiles⟩ := r.make_of_rendered s t p client hdry hrendered
      obtain ⟨_, _, _, hscaffold⟩ := r.file_of_rendered s t p client hrendered
      have hwrite : ((r.project s p).write c.file t).1 = .error e := by
        rw [hresult] at h
        cases hwritten : ((r.project s p).write c.file t).1 with
        | error e' =>
          rw [hwritten] at h
          exact congrArg Except.error (Except.error.inj h)
        | ok path =>
          rw [hwritten] at h
          cases h
      rw [hfiles]
      rcases (r.project s p).write_of_error hprograms hwrite with
        hsame | ⟨⟨text, htext⟩, ground, hlaid, hsame⟩
      · exact .inl hsame
      · cases hneeded : c.file.scaffold with
        | none =>
          rw [hneeded] at hlaid
          obtain rfl : ground = t := hlaid
          exact .inl hsame
        | some scaffold =>
          rw [hneeded] at hlaid hscaffold
          exact .inr ⟨text, c.file.name, scaffold, ground, htext, hscaffold.symm, hlaid, hsame⟩

/-- A component that was made was rendered and is in the one file that was written. -/
theorem files_of_made (hdry : r.dryRun = false) {made : Creation}
    (h : (r.make s p client t).1 = .ok made) :
    ∃ c path ground, r.rendered s t p client = .ok c ∧ made = r.creation p.link c (some path) ∧
      path = (r.project s p).pathFor p.settings.framework c.file.name p.settings.extension ∧
      (r.project s p).LaysGround (p.settings.framework.scaffold? c.file.name) t ground ∧
      WritesOnly ground (r.make s p client t).2.2 s.workingPlace path c.file.contents := by
  cases hrendered : r.rendered s t p client with
  | error e =>
    rw [(r.make_of_not_rendered s t p client hrendered).1] at h
    cases h
  | ok c =>
    obtain ⟨hresult, hfiles⟩ := r.make_of_rendered s t p client hdry hrendered
    obtain ⟨_, _, hpath, hscaffold⟩ := r.file_of_rendered s t p client hrendered
    rw [hresult] at h
    cases hwritten : ((r.project s p).write c.file t).1 with
    | error e =>
      rw [hwritten] at h
      cases h
    | ok path =>
      rw [hwritten] at h
      obtain ⟨hjoined, ground, hlaid, hwrites⟩ := (r.project s p).write_of_ok hwritten
      rw [hpath] at hjoined
      rw [hscaffold] at hlaid
      rw [← hfiles] at hwrites
      exact ⟨c, path, ground, rfl, (Except.ok.inj h).symm, hjoined, hlaid, hwrites⟩

theorem make_rehearsed {c : Component} (h : r.rendered s t p client = .ok c) :
    (r.rehearsed.make s p client t).1 = .ok (r.rehearsed.creation p.link c none) := by
  rw [(r.rehearsed.make_of_dryRun s t p client rfl).1]
  change (r.rendered s t p client).map _ = _
  rw [h]
  rfl

end Make

/-! ## Runs -/

theorem plan_of_settled {p : CreatePlan} {client : Client}
    (h : r.settle s configPath t = .ok (p, client)) : r.plan s configPath t = .ok p := by
  obtain ⟨p', hplan, h⟩ := bind_eq_ok_iff.mp h
  obtain ⟨client', _, h⟩ := bind_eq_ok_iff.mp h
  rw [hplan, (Prod.mk.inj (Except.ok.inj h)).1]

theorem files_of_settled {p : CreatePlan} {client : Client}
    (h : r.settle s configPath t = .ok (p, client)) :
    (r.run s verbose configPath t).files = (r.make s p client t).2.2 := by
  rw [r.run_of_settled s verbose configPath t h, files_ofReport]

theorem run_of_unsettled_complains {e : Failure} (h : r.settle s configPath t = .error e) :
    (r.run s verbose configPath t).Complains s r.format e ∧
      (r.run s verbose configPath t).requests = [] := by
  obtain ⟨notes, hrun⟩ := r.run_of_unsettled s verbose configPath t h
  rw [hrun]
  exact ⟨complains_ofReport e, rfl⟩

theorem files_of_dryRun (hdry : r.dryRun = true) : (r.run s verbose configPath t).files = t := by
  cases hsettled : r.settle s configPath t with
  | error e =>
    obtain ⟨notes, hrun⟩ := r.run_of_unsettled s verbose configPath t hsettled
    rw [hrun]
    rfl
  | ok settled =>
    obtain ⟨p, client⟩ := settled
    rw [r.files_of_settled s verbose configPath t hsettled]
    exact (r.make_of_dryRun s t p client hdry).2

/-- A command that fails leaves the files alone, or as a command left them that laid the ground. -/
theorem files_of_failed_run (hprograms : s.programs.FailHarmlessly)
    (h : (r.run s verbose configPath t).status ≠ 0) :
    SameFiles t (r.run s verbose configPath t).files ∨
      ∃ text p name scaffold ground,
        (r.run s verbose configPath t).Complains s r.format (.files text) ∧
        r.plan s configPath t = .ok p ∧
        p.settings.framework.scaffold? name = some scaffold ∧
        (r.project s p).LaysGround (some scaffold) t ground ∧
        SameFiles ground (r.run s verbose configPath t).files := by
  cases hsettled : r.settle s configPath t with
  | error e =>
    obtain ⟨notes, hrun⟩ := r.run_of_unsettled s verbose configPath t hsettled
    rw [hrun]
    exact .inl (SameFiles.refl t)
  | ok settled =>
    obtain ⟨p, client⟩ := settled
    have hrun := r.run_of_settled s verbose configPath t hsettled
    cases hmade : (r.make s p client t).1 with
    | ok made =>
      rw [hmade] at hrun
      rw [hrun] at h
      exact absurd rfl h
    | error e =>
      rw [r.files_of_settled s verbose configPath t hsettled]
      rcases r.files_of_failed_make s t p client hprograms hmade with
        hsame | ⟨text, name, scaffold, ground, rfl, hscaffold, hlaid, hsame⟩
      · exact .inl hsame
      · rw [hmade] at hrun
        refine .inr ⟨text, p, name, scaffold, ground, ?_,
          r.plan_of_settled s configPath t hsettled, hscaffold, hlaid, hsame⟩
        rw [hrun]
        exact complains_ofReport _

/-- A command that succeeds writes one file, and a dry run reports the contents of this file. -/
theorem files_of_successful_run (hstatus : (r.run s verbose configPath t).status = 0)
    (hdry : r.dryRun = false) :
    ∃ p creation contents path ground, r.plan s configPath t = .ok p ∧
      (r.rehearsed.run s verbose configPath t).Reports s r.format (.create creation) ∧
      creation.framework = p.settings.framework ∧ creation.extension = p.settings.extension ∧
      creation.code = some contents ∧
      (r.run s verbose configPath t).Reports s r.format
        (.create { creation with outputPath := some path, dryRun := false, code := none }) ∧
      path = (r.project s p).pathFor p.settings.framework creation.componentName
        p.settings.extension ∧
      (r.project s p).LaysGround (p.settings.framework.scaffold? creation.componentName) t
        ground ∧
      WritesOnly ground (r.run s verbose configPath t).files s.workingPlace path contents := by
  cases hsettled : r.settle s configPath t with
  | error e =>
    obtain ⟨notes, hrun⟩ := r.run_of_unsettled s verbose configPath t hsettled
    rw [hrun] at hstatus
    cases hstatus
  | ok settled =>
    obtain ⟨p, client⟩ := settled
    have hrun := r.run_of_settled s verbose configPath t hsettled
    cases hmade : (r.make s p client t).1 with
    | error e =>
      rw [hmade] at hrun
      rw [hrun] at hstatus
      cases hstatus
    | ok made =>
      obtain ⟨c, path, ground, hrendered, rfl, hpath, hlaid, hwrites⟩ :=
        r.files_of_made s t p client hdry hmade
      rw [← r.files_of_settled s verbose configPath t hsettled] at hwrites
      -- The dry run renders the same component, and reports it with its contents.
      have hrehearsed := r.rehearsed.run_of_settled s verbose configPath t hsettled
      rw [r.make_rehearsed s t p client hrendered] at hrehearsed
      have hreal : r.creation p.link c (some path) =
          { r.rehearsed.creation p.link c none with
            outputPath := some path, dryRun := false, code := none } := by
        rw [creation, creation, hdry]
        rfl
      rw [hmade, hreal] at hrun
      obtain ⟨hframework, hextension, _, _⟩ := r.file_of_rendered s t p client hrendered
      refine ⟨p, r.rehearsed.creation p.link c none, c.file.contents, path, ground,
        r.plan_of_settled s configPath t hsettled, ?_, hframework, hextension, rfl, ?_, hpath, hlaid,
        hwrites⟩
      · rw [hrehearsed]
        exact reports_ofReport _
      · rw [hrun]
        exact reports_ofReport _

/-- A command that creates a component does it as a whole or not at all. If it fails before its
first request is due, it sends none. A dry run changes no file. If it fails no file is created,
changed or removed, except by a command that laid the ground and succeeded before the component
could not be written. If it succeeds it changes on that ground the one file at the path of the
component; a dry run in the same state reports the contents of this file and otherwise the same
component. -/
theorem writes_one_file_or_none (hprograms : s.programs.FailHarmlessly) :
    let ending := r.run s verbose configPath t
    let rehearsal := r.rehearsed.run s verbose configPath t
    (∀ e, r.settle s configPath t = .error e →
      ending.Complains s r.format e ∧ ending.requests = []) ∧
    (r.dryRun = true → ending.files = t) ∧
    (ending.status ≠ 0 →
      SameFiles t ending.files ∨
        ∃ text p name scaffold ground, ending.Complains s r.format (.files text) ∧
          r.plan s configPath t = .ok p ∧
          p.settings.framework.scaffold? name = some scaffold ∧
          (r.project s p).LaysGround (some scaffold) t ground ∧
          SameFiles ground ending.files) ∧
    (ending.status = 0 → r.dryRun = false →
      ∃ p creation contents path ground, r.plan s configPath t = .ok p ∧
        rehearsal.Reports s r.format (.create creation) ∧
        creation.framework = p.settings.framework ∧ creation.extension = p.settings.extension ∧
        creation.code = some contents ∧
        ending.Reports s r.format
          (.create { creation with outputPath := some path, dryRun := false, code := none }) ∧
        path = (r.project s p).pathFor p.settings.framework creation.componentName
          p.settings.extension ∧
        (r.project s p).LaysGround (p.settings.framework.scaffold? creation.componentName) t
          ground ∧
        WritesOnly ground ending.files s.workingPlace path contents) := by
  intro ending rehearsal
  refine ⟨?_, ?_, ?_, ?_⟩
  · intro e hunsettled
    exact r.run_of_unsettled_complains s verbose configPath t hunsettled
  · exact r.files_of_dryRun s verbose configPath t
  · exact r.files_of_failed_run s verbose configPath t hprograms
  · exact r.files_of_successful_run s verbose configPath t

/-! ## A card, written and not written -/

def cardRequest (framework : String) : CreateRequest :=
  { figmaLink := "https://www.figma.com/design/K/T?node-id=1-2"
    name := none
    framework := some framework
    typescript := false
    projectDir := "."
    noReuse := false
    token := some "t"
    format := .json
    dryRun := false }

/-- The answer of the service that has a frame named card. -/
def cardAnswer : String :=
  "\x7b\"name\":\"f\",\"nodes\":\x7b\"1:2\":\x7b\"document\":" ++
    "\x7b\"id\":\"1:2\",\"name\":\"Card\",\"type\":\"FRAME\"\x7d\x7d\x7d\x7d"

def cardFile : String :=
  "const Card = () => \x7b\n  return (\n    <div className=\"\"></div>\n  );\n\x7d;\n\n" ++
    "export default Card;\n"

def servedWith (programs : Programs) : Surroundings :=
  { workingPlace := []
    home := none
    personalToken := none
    bearerToken := none
    web := fun _ => some ⟨200, [], cardAnswer⟩
    programs
    onTerminal := false }

def makesOneFile : Programs := fun _ place t =>
  (.exited 0, t.put (place ++ ["card.component.ts"]) (.file ""))

def blockedProject : FileTree := ⟨[(["src"], .file "")]⟩

/-- The card is written to the path of its framework, with the contents that a dry run reports. -/
theorem card_is_written_as_rehearsed :
    let ending := (cardRequest "react").run (servedWith Programs.none) false none .empty
    let rehearsal := (cardRequest "react").rehearsed.run (servedWith Programs.none) false none .empty
    Programs.none.FailHarmlessly ∧
      (ending.status = 0 ∧ ending.files.fileAt? ["src", "components", "Card.jsx"] = some cardFile) ∧
      ∃ creation contents path ground,
        rehearsal.Reports (servedWith Programs.none) .json (.create creation) ∧
        creation.code = some contents ∧ WritesOnly ground ending.files [] path contents := by
  intro ending rehearsal
  have hprograms : Programs.none.FailHarmlessly := fun _ _ t _ => SameFiles.refl t
  have hending :
      ending.status = 0 ∧ ending.files.fileAt? ["src", "components", "Card.jsx"] = some cardFile := by
    decide +kernel
  obtain ⟨_, _, _, hsuccess⟩ := writes_one_file_or_none (cardRequest "react")
    (servedWith Programs.none) false none .empty hprograms
  obtain ⟨_, creation, contents, path, ground, _, hreports, _, _, hcode, _, _, _, hwrites⟩ :=
    hsuccess hending.1 rfl
  exact ⟨hprograms, hending, creation, contents, path, ground, hreports, hcode, hwrites⟩

/-- The ground is laid, the component cannot be written, and the file of the ground is left. -/
theorem ground_is_left_without_card :
    let ending := (cardRequest "angular").run (servedWith makesOneFile) false none blockedProject
    makesOneFile.FailHarmlessly ∧ blockedProject.fileAt? ["card.component.ts"] = none ∧
      ending.status = failureStatus ∧ ending.files.fileAt? ["card.component.ts"] = some "" := by
  intro ending
  have hprograms : makesOneFile.FailHarmlessly := fun _ _ _ h => absurd rfl h
  refine ⟨hprograms, rfl, ?_⟩
  decide +kernel

end CreateRequest

end DesignComponents
