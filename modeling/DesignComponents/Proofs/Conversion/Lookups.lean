import DesignComponents.Proofs.Conversion.FailedImages

/-!
# What is looked up

A rendering asks for the component of every visible layer that it comes to, in the order in which
it comes to them, except that it asks for no name twice and never for that of the root. What it
was told at the one time stands for the whole rendering, even if a later question would have been
answered otherwise. So all layers of a name are referred to, or none is.
-/

namespace DesignComponents

/-! ## Renderings that note what they ask about -/

/-- A result with the layers that were asked about on the way to it. -/
structure Noted (α : Type) where
  result : α
  layers : List Layer

instance : Monad Noted where
  pure a := ⟨a, []⟩
  bind x f := ⟨(f x.result).result, x.layers ++ (f x.result).layers⟩

namespace Node

variable (reference? address? : Layer → Option String)

def noteLayer (layer : Layer) : Noted (Option String) := ⟨reference? layer, [layer]⟩

def noteNothing (layer : Layer) : Noted (Option String) := ⟨address? layer, []⟩

/-- The layers that a rendering of a node asks about, in order. -/
def asksAbout (n : Node) : List Layer :=
  (n.renderWith (noteLayer reference?) (noteNothing address?)).layers

theorem classify_noteLayer (layer : Layer) :
    layer.classify (noteLayer reference?) =
      ⟨layer.roleWith reference?, if layer.visible then [layer] else []⟩ := by
  rw [Layer.roleWith_eq, Layer.classify]
  cases layer.visible with
  | false => rfl
  | true =>
    change Noted.mk _ ([layer] ++ _) = _
    simp only [noteLayer]
    cases reference? layer with
    | none => rfl
    | some name => rfl

theorem layers_renderAllWith (ns : List Node) :
    (renderAllWith (noteLayer reference?) (noteNothing address?) ns).layers =
      ns.flatMap (asksAbout reference? address?) := by
  induction ns with
  | nil => rw [renderAllWith]; rfl
  | cons n ns ih =>
    rw [renderAllWith, List.flatMap_cons, ← ih]
    change _ ++ (_ ++ []) = _
    rw [List.append_nil]
    rfl

/-- A visible layer is asked about before those that are entered from its node. -/
theorem asksAbout_eq (n : Node) :
    n.asksAbout reference? address? =
      (if n.visible then [n.layer] else []) ++
        (n.entered reference?).flatMap (asksAbout reference? address?) := by
  obtain ⟨layer, children⟩ := n
  rw [asksAbout, renderWith, classify_noteLayer, entered]
  change _ ++ _ = (if layer.visible then [layer] else []) ++ _
  refine congrArg _ ?_
  cases layer.roleWith reference? with
  | image | imageContainer | text | label | input | reference _ | empty => rfl
  | table =>
    dsimp only
    rw [List.flatMap_append, ← layers_renderAllWith, ← layers_renderAllWith]
    change _ ++ (_ ++ []) = _
    rw [List.append_nil]
  | headingCell | dataCell | container =>
    dsimp only
    rw [← layers_renderAllWith]
    exact List.append_nil _

/-- What is asked about are the visible layers that the rendering comes to. -/
theorem mem_asksAbout_iff (layer : Layer) (n : Node) :
    layer ∈ n.asksAbout reference? address? ↔
      ∃ v, Visits reference? n v ∧ v.visible = true ∧ v.layer = layer := by
  induction n using entered_induction reference? with
  | step n hentered =>
    rw [asksAbout_eq, List.mem_append, List.mem_flatMap]
    constructor
    · rintro (hown | ⟨inner, hinner, hlayer⟩)
      · split at hown
        · rename_i hvisible
          exact ⟨n, .refl, hvisible, (List.mem_singleton.mp hown).symm⟩
        · cases hown
      · obtain ⟨v, hv, hvisible, rfl⟩ := (hentered inner hinner).mp hlayer
        exact ⟨v, .head hinner hv, hvisible, rfl⟩
    · rintro ⟨v, hv, hvisible, rfl⟩
      rcases (visits_iff reference? _ v).mp hv with rfl | ⟨inner, hinner, hv⟩
      · rw [if_pos hvisible]
        exact .inl List.mem_cons_self
      · exact .inr ⟨inner, hinner, (hentered inner hinner).mpr ⟨v, hv, hvisible, rfl⟩⟩

end Node

/-! ## The names asked for -/

/-- The names for which layers are looked up: never the root's. -/
def Reuse.namesFor (r : Reuse) (layers : List Layer) : List String :=
  (layers.map fun layer => componentName layer.displayName).filter (· ≠ r.rootName)

theorem Reuse.namesFor_append (r : Reuse) (layers layers' : List Layer) :
    r.namesFor (layers ++ layers') = r.namesFor layers ++ r.namesFor layers' := by
  rw [namesFor, List.map_append, List.filter_append]
  rfl

theorem Reuse.mem_namesFor_iff {r : Reuse} {layers : List Layer} {name : String} :
    name ∈ r.namesFor layers ↔
      name ≠ r.rootName ∧ ∃ layer ∈ layers, componentName layer.displayName = name := by
  rw [namesFor, List.mem_filter, List.mem_map, and_comm, decide_eq_true_iff]

namespace Ledger

theorem known?_eq_none_iff {name : String} {answers : List (String × Bool)} :
    known? name answers = none ↔ name ∉ answers.map (·.1) := by
  induction answers with
  | nil => simp [known?]
  | cons entry answers ih =>
    obtain ⟨asked, answer⟩ := entry
    rw [known?, List.map_cons, List.mem_cons, not_or, ← ih]
    split
    · rename_i hsame
      simp [hsame]
    · rename_i hother
      exact (and_iff_right fun h => hother h.symm).symm

/-- A name is put last among those asked for unless it is there. -/
theorem asked_exists? (r : Reuse) (name : String) {l : Ledger} {asked : Imports}
    (h : l.answers.map (·.1) = asked.names) :
    (exists? r name l).2.answers.map (·.1) = (asked.insert name).names := by
  rw [Imports.names_insert, ← h]
  cases hknown : known? name l.answers with
  | none =>
    rw [exists?_unknown hknown, if_neg (known?_eq_none_iff.mp hknown), List.map_append]
    rfl
  | some answer =>
    have hasked : name ∈ l.answers.map (·.1) := by
      by_contra hnot
      rw [known?_eq_none_iff.mpr hnot] at hknown
      cases hknown
    rw [exists?_known hknown, if_pos hasked]

theorem asked_componentFor (r : Reuse) (layer : Layer) {l : Ledger} {asked : Imports}
    (h : l.answers.map (·.1) = asked.names) :
    (componentFor (some r) layer l).2.answers.map (·.1) =
      (asked.insertAll (r.namesFor [layer])).names := by
  have hasked := asked_exists? r (componentName layer.displayName) h
  rcases componentFor_cases r layer l with
    ⟨hroot, hnone⟩ | ⟨hroot, l', hlooked⟩
  · have hnames : r.namesFor [layer] = [] := by simp [Reuse.namesFor, hroot]
    rw [hnone, hnames]
    exact h
  · have hnames : r.namesFor [layer] = [componentName layer.displayName] := by
      simp [Reuse.namesFor, hroot]
    rw [hnames]
    change _ = (asked.insert (componentName layer.displayName)).names
    rw [← hasked]
    rcases hlooked with ⟨hno, hnone⟩ | ⟨hyes, hsome⟩
    · rw [hnone, hno]
    · rw [hsome, hyes]

end Ledger

namespace Walk

variable (w : Walk)

/-- With all answers known, a program asks for the names of the layers that its counterpart
notes, each at its first place. -/
def AsksAsNoted (r : Reuse) (answers : List (String × Bool)) (α : Type) (x : StateM Ledger α)
    (y : Noted α) : Prop :=
  ∀ l, l.answers <+: (x l).2.answers ∧
    ((x l).2.answers <+: answers →
      y.result = (x l).1 ∧ ∀ asked : Imports, l.answers.map (·.1) = asked.names →
        (x l).2.answers.map (·.1) = (asked.insertAll (r.namesFor y.layers)).names)

theorem simulation_asksAsNoted (r : Reuse) (answers : List (String × Bool)) :
    Simulation (StateM Ledger) Noted (AsksAsNoted r answers) where
  pure _ _ := ⟨List.prefix_refl _, fun _ => ⟨rfl, fun _ h => h⟩⟩
  bind {_ _ x y f g} hx hf l := by
    obtain ⟨hgrows, hfirst⟩ := hx l
    obtain ⟨hgrowsOn, hrest⟩ := hf (x l).1 (x l).2
    refine ⟨hgrows.trans hgrowsOn, fun hanswers => ?_⟩
    obtain ⟨hvalue, hasked⟩ := hfirst (hgrowsOn.trans hanswers)
    obtain ⟨hvalueOn, haskedOn⟩ := hrest hanswers
    change (g y.result).result = _ ∧ ∀ asked : Imports, _ →
      _ = (asked.insertAll (r.namesFor (y.layers ++ (g y.result).layers))).names
    rw [hvalue]
    refine ⟨hvalueOn, fun asked h => ?_⟩
    rw [Reuse.namesFor_append, Imports.insertAll_append]
    exact haskedOn _ (hasked asked h)

theorem asksAsNoted_render {r : Reuse} (hreuse : w.reuse = some r)
    (answers : List (String × Bool)) (n : Node) :
    AsksAsNoted r answers (Option Element) (w.render n)
      (n.renderWith (Node.noteLayer (Ledger.reference? w.reuse answers))
        (Node.noteNothing w.addressOf)) := by
  refine (simulation_asksAsNoted r answers).renderWith ?_ ?_ n
  · intro layer l
    obtain ⟨hgrows, hvalue, _⟩ := Ledger.componentFor_spec w.reuse layer l
    refine ⟨hgrows, fun hanswers => ⟨hvalue answers hanswers, fun asked h => ?_⟩⟩
    rw [hreuse]
    exact Ledger.asked_componentFor r layer h
  · intro layer l
    exact ⟨List.prefix_refl _, fun _ => ⟨rfl, fun _ h => h⟩⟩

/-- What a rendering asks for are the names of the visible layers that it comes to, each once and
in that order, without the root's. -/
theorem lookedUp_render {r : Reuse} (hreuse : w.reuse = some r) (n : Node) :
    Call.lookedUp (w.render n .empty).2.calls =
      (r.namesFor (n.asksAbout (Ledger.reference? w.reuse (w.render n .empty).2.answers)
        w.addressOf)).eraseDups := by
  have haccounted := w.accounted_render hreuse n
  have hnoted := w.asksAsNoted_render hreuse (w.render n .empty).2.answers n .empty
  obtain ⟨_, hasked⟩ := hnoted.2 (List.prefix_refl _)
  rw [← haccounted.asked, hasked .empty rfl, Imports.names_insertAll_empty]
  rfl

theorem nodup_lookedUp_render {r : Reuse} (hreuse : w.reuse = some r) (n : Node) :
    (Call.lookedUp (w.render n .empty).2.calls).Nodup := by
  rw [w.lookedUp_render hreuse, ← Imports.names_insertAll_empty]
  exact Imports.nodup _

theorem mem_lookedUp_render_iff {r : Reuse} (hreuse : w.reuse = some r) (n : Node)
    (name : String) :
    name ∈ Call.lookedUp (w.render n .empty).2.calls ↔
      name ≠ r.rootName ∧
        ∃ v, (Node.Visits (Ledger.reference? w.reuse (w.render n .empty).2.answers) n v ∧
          v.visible = true) ∧ componentName v.layer.displayName = name := by
  rw [w.lookedUp_render hreuse, List.mem_eraseDups, Reuse.mem_namesFor_iff]
  refine and_congr_right fun _ => ?_
  constructor
  · rintro ⟨layer, hlayer, hname⟩
    obtain ⟨v, hv, hvisible, rfl⟩ := (Node.mem_asksAbout_iff _ _ _ _).mp hlayer
    exact ⟨v, ⟨hv, hvisible⟩, hname⟩
  · rintro ⟨v, ⟨hv, hvisible⟩, hname⟩
    exact ⟨v.layer, (Node.mem_asksAbout_iff _ _ _ _).mpr ⟨v, hv, hvisible, rfl⟩, hname⟩

end Walk

/-! ## The answers -/

theorem eq_append_of_concat_eq {α : Type} {xs before after : List α} {last x : α}
    (h : xs ++ [last] = before ++ x :: after) :
    (before = xs ∧ x = last) ∨ ∃ rest, xs = before ++ x :: rest := by
  rcases List.eq_nil_or_concat after with rfl | ⟨rest, other, rfl⟩
  · obtain ⟨hbefore, hlast⟩ := List.append_inj' h rfl
    exact .inl ⟨hbefore.symm, (List.singleton_inj.mp hlast).symm⟩
  · have hsplit : xs ++ [last] = (before ++ x :: rest) ++ [other] := by
      rw [h, List.concat_eq_append, List.append_assoc, List.cons_append]
    exact .inr ⟨rest, (List.append_inj' hsplit rfl).1⟩

namespace Ledger

/-- Whether a name was asked for and is that of a component. -/
def has (l : Ledger) (name : String) : Bool := known? name l.answers == some true

/-- Every look-up has the answer that the catalogue gave when it was made. -/
def Remembers (r : Reuse) (l : Ledger) : Prop :=
  ∀ before name extension after, l.calls = before ++ .lookup name extension :: after →
    extension = r.extension ∧
      known? name l.answers = some (r.catalogue (Call.lookedUp before) name)

theorem Remembers.has_eq {r : Reuse} {l : Ledger} (h : l.Remembers r) {before after : List Call}
    {name extension : String} (hcalls : l.calls = before ++ .lookup name extension :: after) :
    extension = r.extension ∧ l.has name = r.catalogue (Call.lookedUp before) name := by
  obtain ⟨hextension, hanswer⟩ := h before name extension after hcalls
  refine ⟨hextension, ?_⟩
  rw [has, hanswer]
  cases r.catalogue (Call.lookedUp before) name with
  | false => rfl
  | true => rfl

theorem Remembers.record {r : Reuse} {l : Ledger} (h : l.Remembers r) (fileKey id : String) :
    (l.record (.image fileKey id)).Remembers r := by
  intro before name extension after hcalls
  rcases eq_append_of_concat_eq hcalls with ⟨_, hlast⟩ | ⟨rest, hcalls⟩
  · cases hlast
  · exact h before name extension rest hcalls

theorem Remembers.exists? {r : Reuse} {l : Ledger} (h : l.Remembers r) (haccounted : l.Accounted r)
    (name : String) : (exists? r name l).2.Remembers r := by
  cases hknown : known? name l.answers with
  | some answer =>
    rw [exists?_known hknown]
    exact h
  | none =>
    rw [exists?_unknown hknown]
    intro before other extension after hcalls
    dsimp only
    rw [known?_append]
    rcases eq_append_of_concat_eq hcalls with ⟨rfl, hlast⟩ | ⟨rest, hcalls⟩
    · obtain ⟨rfl, rfl⟩ := Call.lookup.inj hlast
      rw [hknown, Option.none_or, known?, if_pos rfl, haccounted.asked]
      exact ⟨rfl, rfl⟩
    · obtain ⟨hextension, hanswer⟩ := h before other extension rest hcalls
      rw [hanswer]
      exact ⟨hextension, rfl⟩

theorem Remembers.componentFor {r : Reuse} {l : Ledger} (h : l.Remembers r)
    (haccounted : l.Accounted r) (layer : Layer) :
    (componentFor (some r) layer l).2.Remembers r := by
  have hafter := h.exists? haccounted (componentName layer.displayName)
  rcases componentFor_cases r layer l with
    ⟨_, hnone⟩ | ⟨_, l', ⟨hno, hnone⟩ | ⟨hyes, hsome⟩⟩
  · rw [hnone]
    exact h
  · rw [hno] at hafter
    rw [hnone]
    exact hafter
  · rw [hyes] at hafter
    rw [hsome]
    exact hafter

end Ledger

theorem Walk.remembers_render (w : Walk) {r : Reuse} (hreuse : w.reuse = some r) (n : Node) :
    (w.render n .empty).2.Remembers r := by
  have hboth : (w.render n .empty).2.Accounted r ∧ (w.render n .empty).2.Remembers r := by
    refine w.preserved_by_render (P := fun l => l.Accounted r ∧ l.Remembers r) ?_ ?_ n .empty ?_
    · intro layer l h
      rw [hreuse]
      exact ⟨h.1.componentFor layer, h.2.componentFor h.1 layer⟩
    · intro id l h
      exact ⟨h.1.record w.fileKey id, h.2.record w.fileKey id⟩
    · refine ⟨Ledger.accounted_empty r, ?_⟩
      intro before name extension after hcalls
      exact absurd hcalls.symm (List.append_ne_nil_of_right_ne_nil _ (List.cons_ne_nil _ _))
  exact hboth.2

theorem Layer.roleWith_named? (r : Reuse) (has : String → Bool) {layer : Layer}
    (hvisible : layer.visible = true) (hroot : componentName layer.displayName ≠ r.rootName) :
    layer.roleWith (Reuse.named? (some r) fun _ => has) =
      if has (componentName layer.displayName) then
        .reference (componentName layer.displayName)
      else layer.ownRole := by
  rw [roleWith_eq, if_pos hvisible]
  cases hhas : has (componentName layer.displayName) with
  | true => rw [Reuse.named?_yes hroot hhas, if_pos rfl]
  | false => rw [Reuse.named?_no hhas, if_neg Bool.false_ne_true]

/-- Of the visible layers with a name that is not the root's all are referred to or none is. -/
theorem Reuse.all_or_none (r : Reuse) (has : String → Bool) {name : String}
    (hname : name ≠ r.rootName) :
    (∀ layer : Layer, layer.visible = true → componentName layer.displayName = name →
      layer.roleWith (named? (some r) fun _ => has) = .reference name) ∨
    ∀ layer : Layer, layer.visible = true → componentName layer.displayName = name →
      layer.roleWith (named? (some r) fun _ => has) = layer.ownRole := by
  cases hhas : has name with
  | true =>
    left
    rintro layer hvisible rfl
    rw [Layer.roleWith_named? r has hvisible hname, if_pos hhas]
  | false =>
    right
    rintro layer hvisible rfl
    rw [Layer.roleWith_named? r has hvisible hname, if_neg (ne_true_of_eq_false hhas)]

namespace Conversion

/-- A conversion that reuses components has one answer for each name: `has`. It refers to a
component for every visible layer it comes to whose name, if not the root's, has the answer yes,
and to none for the others. It asks exactly for the names of these layers but the root's, for
each once, and the answer is what the catalogue said then, whatever it would say later. -/
theorem lookups_are_memoised (source : Source) (o : Options) (catalogue : Catalogue)
    (fileKey : String) (root : Node)
    (hreuse : (o.reuse && o.framework.importsComponents) = true) :
    let own := componentName root.layer.displayName
    let element := (ofRoot source o catalogue fileKey root).1.element
    let calls := (ofRoot source o catalogue fileKey root).2
    ∃ has : String → Bool,
      let stands? := Reuse.named? (o.reuseFor own catalogue) fun _ => has
      let visited := fun v => Node.Visits stands? root.inReadingOrder v ∧ v.visible = true
      element = root.inReadingOrder.shown stands? (source.addressIn fileKey) ∧
        (Call.lookedUp calls).Nodup ∧
        (∀ name, name ∈ Call.lookedUp calls ↔
          name ≠ own ∧ ∃ v, visited v ∧ componentName v.layer.displayName = name) ∧
        (∀ before name extension after, calls = before ++ .lookup name extension :: after →
          extension = o.extension ∧ has name = catalogue (Call.lookedUp before) name) ∧
        ∀ name, name ≠ own →
          (∀ v, visited v → componentName v.layer.displayName = name →
            v.layer.roleWith stands? = .reference name) ∨
          ∀ v, visited v → componentName v.layer.displayName = name →
            v.layer.roleWith stands? = v.layer.ownRole := by
  intro own element calls
  let w := walk source o catalogue fileKey root
  let r : Reuse := ⟨own, o.extension, catalogue⟩
  have hr : o.reuseFor own catalogue = some r := if_pos hreuse
  have hw : w.reuse = some r := hr
  let after := (w.render root.inReadingOrder .empty).2
  have helement : element = (w.render root.inReadingOrder .empty).1 :=
    congrArg (·.1.element) (ofRoot_eq source o catalogue fileKey root)
  have hcalls : calls = after.calls :=
    congrArg (·.2) (ofRoot_eq source o catalogue fileKey root)
  refine ⟨after.has, ?_⟩
  intro stands? visited
  rw [helement, hcalls]
  refine ⟨(w.shown_of_render root.inReadingOrder .empty).symm,
    w.nodup_lookedUp_render hw root.inReadingOrder,
    w.mem_lookedUp_render_iff hw root.inReadingOrder, ?_, ?_⟩
  · intro before name extension rest hsplit
    exact (w.remembers_render hw root.inReadingOrder).has_eq hsplit
  · intro name hname
    have hstands : stands? = Reuse.named? (some r) fun _ => after.has := by
      rw [← hr]
    rw [hstands]
    rcases r.all_or_none after.has hname with hall | hnone
    · exact .inl fun v hv => hall v.layer hv.2
    · exact .inr fun v hv => hnone v.layer hv.2

/-! ## Two cards and a catalogue that changes its mind -/

def pageWithCards : Node :=
  .mk (bareLayer "1:1" "Page" .frame true)
    [.mk (bareLayer "1:2" "card" .frame true) [],
      .mk (bareLayer "1:3" "Card" .frame true) [],
      .mk (bareLayer "1:4" "Icon" .frame true) []]

/-- There are components until the first question was asked, and none from then on. -/
def fleeting : Catalogue := fun earlier _ => earlier.isEmpty

theorem inReadingOrder_pageWithCards : pageWithCards.inReadingOrder = pageWithCards := by
  rw [pageWithCards, Node.inReadingOrder, List.mergeSort_of_pairwise]
  decide +kernel

theorem result_pageWithCards :
    let result := ofRoot (sourceOf pageWithCards) Component.plainReact fleeting "FILE" pageWithCards
    result.1.markup .react = "<div className=\"\"><Card /><Card /><div className=\"\"></div></div>" ∧
      result.2 = [.lookup "Card" "jsx", .lookup "Icon" "jsx"] := by
  intro result
  have hresult : result = ofRoot (sourceOf pageWithCards) Component.plainReact fleeting "FILE"
      pageWithCards := rfl
  rw [hresult, ofRoot, inReadingOrder_pageWithCards]
  constructor
  · decide +kernel
  · decide +kernel

/-- Both cards are referred to, although the second would not be there any more. -/
theorem fleeting_card_is_kept :
    (Component.plainReact.reuse && Component.plainReact.framework.importsComponents) = true ∧
      fleeting ["Card"] "Card" = false ∧
      (ofRoot (sourceOf pageWithCards) Component.plainReact fleeting "FILE"
          pageWithCards).1.markup .react =
        "<div className=\"\"><Card /><Card /><div className=\"\"></div></div>" ∧
      ∃ has : String → Bool, has "Card" = true ∧ has "Icon" = false ∧
        (ofRoot (sourceOf pageWithCards) Component.plainReact fleeting "FILE"
            pageWithCards).1.element =
          pageWithCards.shown
            (Reuse.named? (Component.plainReact.reuseFor "Page" fleeting) fun _ => has)
            ((sourceOf pageWithCards).addressIn "FILE") := by
  have hreuse : (Component.plainReact.reuse && Component.plainReact.framework.importsComponents) =
      true := rfl
  obtain ⟨has, helement, _, _, hanswers, _⟩ := lookups_are_memoised (sourceOf pageWithCards)
    Component.plainReact fleeting "FILE" pageWithCards hreuse
  obtain ⟨hmarkup, hcalls⟩ := result_pageWithCards
  have hcard := (hanswers [] "Card" "jsx" [.lookup "Icon" "jsx"] hcalls).2
  have hicon := (hanswers [.lookup "Card" "jsx"] "Icon" "jsx" [] hcalls).2
  rw [inReadingOrder_pageWithCards] at helement
  have hown : componentName pageWithCards.layer.displayName = "Page" := by decide +kernel
  rw [hown] at helement
  exact ⟨hreuse, rfl, hmarkup, has, hcard, hicon, helement⟩

end Conversion

end DesignComponents
