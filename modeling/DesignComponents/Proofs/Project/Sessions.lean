import DesignComponents.Proofs.Conversion.Creation
import DesignComponents.Proofs.Conversion.OwnName
import DesignComponents.Proofs.Project.Writing

/-!
# Runs of creations

Components are created one after the other in one store, each from a design of its own and with
its own options. What a file imports was in the store when the file was made, and stays there as
long as no file is taken away, so that at no point of a run a written file imports what is
missing.
-/

namespace DesignComponents

/-- What to create: from which design, how, and which node of which file. -/
structure Commission where
  source : Source
  options : Options
  fileKey : String
  id : String

structure Session (σ : Type) where
  state : σ
  written : List Component

/-! ## Stores that keep their files -/

/-- A store goes by the paths of files, and takes no file away to write one that needs no
ground. -/
structure Store.Lasting {σ : Type} (store : Store σ) (stored : σ → String → Prop) : Prop where
  holds_iff : ∀ s f name extension,
    store.holds s f name extension = true ↔ stored s (f.filePath name extension)
  kept : ∀ s f file path, file.scaffold = none → stored s path →
    stored (store.write s f file).2 path

def Project.Stored (p : Project) (t : FileTree) (path : String) : Prop :=
  t.isFile p.workingPlace (Path.join p.root path) = true

theorem Project.lasting_store (p : Project) : p.store.Lasting p.Stored where
  holds_iff _ _ _ _ := Iff.rfl
  kept _ _ _ _ hscaffold hpath := (p.retains_write_of_no_scaffold hscaffold).isFile hpath

theorem Framework.scaffold?_eq_none {f : Framework} (hf : f ≠ .angular) (name : String) :
    f.scaffold? name = none := by
  cases f with
  | angular => exact absurd rfl hf
  | html | react | vue => rfl

/-! ## Runs -/

namespace Session

variable {σ : Type} (store : Store σ)

def create (session : Session σ) (c : Commission) : Session σ :=
  match store.create c.source c.options c.fileKey c.id session.state with
  | (.ok (component, _), _, state) => ⟨state, session.written ++ [component]⟩
  | (.error _, _, state) => ⟨state, session.written⟩

def createAll (session : Session σ) (commissions : List Commission) : Session σ :=
  commissions.foldl (create store) session

/-- Every written file is that of its framework for its imports, and these are in the store. -/
def Closed (stored : σ → String → Prop) (session : Session σ) : Prop :=
  ∀ c ∈ session.written,
    (∃ markup, c.file = c.framework.componentFile c.file.name markup c.imports c.extension) ∧
      ∀ name ∈ c.imports, stored session.state (c.framework.filePath name c.extension)

variable {store} {stored : σ → String → Prop} {session : Session σ}

theorem Closed.of_kept (h : session.Closed stored) {state : σ}
    (hkept : ∀ path, stored session.state path → stored state path) :
    Closed stored ⟨state, session.written⟩ := by
  intro c hc
  obtain ⟨hfile, himports⟩ := h c hc
  exact ⟨hfile, fun name hname => hkept _ (himports name hname)⟩

/-- A creation leaves a store as it was, or writes one file that imports what is there. -/
theorem Closed.create (hstore : store.Lasting stored) (h : session.Closed stored)
    {c : Commission} (hc : c.options.framework.importsComponents = true) :
    (session.create store c).Closed stored := by
  rw [Session.create]
  cases hrendered : (Component.render c.source c.options (store.catalogue session.state c.options)
      c.fileKey c.id).1 with
  | error e =>
    rw [store.create_of_error c.source c.options c.fileKey c.id session.state hrendered]
    exact h
  | ok component =>
    rw [store.create_of_ok c.source c.options c.fileKey c.id session.state hrendered]
    obtain ⟨root, _, rfl⟩ :=
      (Component.render_eq_ok_iff c.source c.options _ c.fileKey c.id).mp hrendered
    set component := Component.ofRoot c.source c.options
      (store.catalogue session.state c.options) c.fileKey root
    have hscaffold : component.file.scaffold = none := Framework.scaffold?_eq_none (Framework.ne_angular hc) _
    have hkept := fun path =>
      hstore.kept session.state c.options.framework component.file path hscaffold
    have hwritten := h.of_kept hkept
    cases (store.write session.state c.options.framework component.file).1 with
    | error e => exact hwritten
    | ok path =>
      intro other hother
      rcases List.mem_append.mp hother with hother | hother
      · exact hwritten other hother
      · rw [List.mem_singleton.mp hother]
        refine ⟨⟨_, rfl⟩, fun name hname => hkept _ ?_⟩
        -- The store held the import when it was asked, and nothing was written before that.
        have hholds := store.holds_of_mem_imports c.source c.options c.fileKey session.state hname
        exact (hstore.holds_iff _ _ _ _).mp hholds

theorem Closed.createAll (hstore : store.Lasting stored) {commissions : List Commission}
    (hcommissions : ∀ c ∈ commissions, c.options.framework.importsComponents = true)
    (h : session.Closed stored) : (session.createAll store commissions).Closed stored := by
  induction commissions generalizing session with
  | nil => exact h
  | cons c rest ih =>
    obtain ⟨hc, hrest⟩ := List.forall_mem_cons.mp hcommissions
    exact ih hrest (h.create hstore hc)

/-- At every point of a run in a store that keeps its files, a written file imports only
components whose files are in the store. -/
theorem imports_are_stored (hstore : store.Lasting stored) (s : σ) {commissions : List Commission}
    (hcommissions : ∀ c ∈ commissions, c.options.framework.importsComponents = true) :
    let session := (⟨s, []⟩ : Session σ).createAll store commissions
    ∀ c ∈ session.written,
      (∃ markup, c.file = c.framework.componentFile c.file.name markup c.imports c.extension) ∧
        ∀ name ∈ c.imports, stored session.state (c.framework.filePath name c.extension) := by
  intro session
  have hstart : (⟨s, []⟩ : Session σ).Closed stored := fun _ hc => absurd hc List.not_mem_nil
  exact hstart.createAll hstore hcommissions

/-! ## A card and a page that shows it -/

def emptyProject : Project := ⟨[], ".", "src/components", Programs.none⟩

def cardThenPage : List Commission :=
  [⟨Conversion.sourceOf (.mk (Conversion.bareLayer "1:2" "Card" .frame true) []),
      Component.plainReact, "FILE", "1:2"⟩,
    ⟨Conversion.sourceOf Component.pageWithCard, Component.plainReact, "FILE", "1:1"⟩]

theorem page_imports_stored_card :
    let session := (⟨.empty, []⟩ : Session FileTree).createAll emptyProject.store cardThenPage
    emptyProject.store.Lasting emptyProject.Stored ∧
      (∀ c ∈ cardThenPage, c.options.framework.importsComponents = true) ∧
      session.written.map (·.imports) = [[], ["Card"]] ∧
      ∀ c ∈ session.written, ∀ name ∈ c.imports,
        session.state.isFile [] (Path.join "src/components" (name ++ "." ++ c.extension)) = true := by
  intro session
  have hcommissions : ∀ c ∈ cardThenPage, c.options.framework.importsComponents = true := by
    decide
  have hwritten : session.written.map (·.framework) = [.react, .react] := by decide +kernel
  refine ⟨emptyProject.lasting_store, hcommissions, by decide +kernel, ?_⟩
  intro c hc name hname
  have hstored :=
    (imports_are_stored emptyProject.lasting_store .empty hcommissions c hc).2 name hname
  have hreact : c.framework = .react := by
    have hmem : c.framework ∈ session.written.map (·.framework) := List.mem_map_of_mem hc
    rw [hwritten] at hmem
    simpa using hmem
  rw [hreact] at hstored
  exact hstored

end Session

end DesignComponents
