import DesignComponents.Conversion.Component
import DesignComponents.Proofs.Design.Columns

/-!
# Depth-first rendering

The plain way to render a design: one node after the other, every image awaited before the next
node is looked at. A conversion starts everything before it waits, and comes to the same element,
the same ledger and the same calls.
-/

namespace DesignComponents

namespace Node

variable {m : Type → Type} [Monad m]

mutual

/-- Renders a node depth first. What stands for a layer and where its image is comes from
outside and is awaited on the spot. -/
def renderWith (component? address? : Layer → m (Option String)) : Node → m (Option Element)
  | .mk layer children => do
    match ← layer.classify component? with
    | .empty => pure none
    | .reference name => pure (some (.reference name))
    | .image => do
      let address ← address? layer
      pure (address.map (ImageForm.plain.element · layer.classes))
    | .imageContainer => do
      let address ← address? layer
      pure (address.map (ImageForm.contained.element · layer.classes))
    | .text => pure (some (.text (Walk.textOf layer) layer.classes))
    | .label => pure (Walk.labelOf (Walk.firstText? children))
    | .input => pure (some (Walk.inputOf layer (Walk.firstText? children)))
    | .table => do
      let headElements ← renderAllWith component? address? (heads children)
      let cellElements ← renderAllWith component? address? (cells children)
      pure (some (.table headElements cellElements))
    | .headingCell => do
      let content ← renderAllWith component? address? children
      pure (some (.headingCell content layer.classes))
    | .dataCell => do
      let content ← renderAllWith component? address? children
      pure (some (.dataCell content layer.classes))
    | .container => do
      let content ← renderAllWith component? address? children
      pure (some (.container content layer.classes))
termination_by n => sizeOf n
decreasing_by
  · have hheads := sizeOf_acrossColumns_le 0 children
    change sizeOf (acrossColumns 0 children) < _
    simp only [mk.sizeOf_spec]
    omega
  · have hcells := sizeOf_acrossColumns_le 1 children
    change sizeOf (acrossColumns 1 children) < _
    simp only [mk.sizeOf_spec]
    omega
  all_goals
    simp only [mk.sizeOf_spec]
    omega

/-- The elements of nodes one after the other; what renders to nothing leaves no gap. -/
def renderAllWith (component? address? : Layer → m (Option String)) :
    List Node → m (List Element)
  | [] => pure []
  | n :: rest => do
    let element ← renderWith component? address? n
    let elements ← renderAllWith component? address? rest
    pure (element.toList ++ elements)
termination_by ns => sizeOf ns

end

end Node

/-! ## Renderings with different surroundings -/

/-- A relation between programs that have the same steps but different surroundings. -/
structure Simulation (m m' : Type → Type) [Monad m] [Monad m']
    (R : (α : Type) → m α → m' α → Prop) : Prop where
  pure : ∀ {α : Type} (a : α), R α (pure a) (pure a)
  bind : ∀ {α β : Type} {x : m α} {x' : m' α} {f : α → m β} {f' : α → m' β},
    R α x x' → (∀ a, R β (f a) (f' a)) → R β (x >>= f) (x' >>= f')

namespace Simulation

variable {m m' : Type → Type} [Monad m] [Monad m'] {R : (α : Type) → m α → m' α → Prop}
  {component? address? : Layer → m (Option String)}
  {component?' address?' : Layer → m' (Option String)}

theorem classify (h : Simulation m m' R)
    (hcomponent : ∀ layer, R _ (component? layer) (component?' layer)) (layer : Layer) :
    R Role (layer.classify component?) (layer.classify component?') := by
  unfold Layer.classify
  split
  · refine h.bind (hcomponent layer) ?_
    intro name?
    cases name? with
    | none => exact h.pure _
    | some name => exact h.pure _
  · exact h.pure _

theorem renderAllWith (h : Simulation m m' R) {ns : List Node}
    (hns : ∀ n ∈ ns, R _ (n.renderWith component? address?) (n.renderWith component?' address?')) :
    R (List Element) (Node.renderAllWith component? address? ns)
      (Node.renderAllWith component?' address?' ns) := by
  induction ns with
  | nil =>
    rw [Node.renderAllWith, Node.renderAllWith]
    exact h.pure _
  | cons n ns ih =>
    obtain ⟨hn, hrest⟩ := List.forall_mem_cons.mp hns
    rw [Node.renderAllWith, Node.renderAllWith]
    exact h.bind hn fun _ => h.bind (ih hrest) fun _ => h.pure _

/-- What holds of everything that a rendering asks for holds of the rendering. -/
theorem renderWith (h : Simulation m m' R)
    (hcomponent : ∀ layer, R _ (component? layer) (component?' layer))
    (haddress : ∀ layer, R _ (address? layer) (address?' layer)) (n : Node) :
    R (Option Element) (n.renderWith component? address?) (n.renderWith component?' address?') := by
  induction n using Node.induction with
  | step layer children hchildren hheads hcells =>
    rw [Node.renderWith, Node.renderWith]
    refine h.bind (h.classify hcomponent layer) ?_
    intro role
    have hcontent := h.renderAllWith hchildren
    cases role with
    | image => exact h.bind (haddress layer) fun _ => h.pure _
    | imageContainer => exact h.bind (haddress layer) fun _ => h.pure _
    | table =>
      exact h.bind (h.renderAllWith hheads) fun _ =>
        h.bind (h.renderAllWith hcells) fun _ => h.pure _
    | headingCell => exact h.bind hcontent fun _ => h.pure _
    | dataCell => exact h.bind hcontent fun _ => h.pure _
    | container => exact h.bind hcontent fun _ => h.pure _
    | text | label | input | reference _ | empty => exact h.pure _

end Simulation

/-! ## Tasks and what they come to -/

namespace Task

mutual

/-- The element of a task once every image is there. -/
def awaited : Task → Option Element
  | done e => e
  | image fetch form classes => fetch.address?.map (form.element · classes)
  | table heads cells => some (.table (awaitedAll heads) (awaitedAll cells))
  | headingCell content classes => some (.headingCell (awaitedAll content) classes)
  | dataCell content classes => some (.dataCell (awaitedAll content) classes)
  | container content classes => some (.container (awaitedAll content) classes)

def awaitedAll : List Task → List Element
  | [] => []
  | t :: rest => (awaited t).toList ++ awaitedAll rest

end

mutual

theorem awaited_poll : (t : Task) → t.poll.awaited = t.awaited
  | done _ => rfl
  | image ⟨0, _⟩ _ _ => rfl
  | image ⟨_ + 1, _⟩ _ _ => rfl
  | table heads cells => by
    rw [poll, awaited, awaited, awaitedAll_pollAll heads, awaitedAll_pollAll cells]
  | headingCell content classes => by rw [poll, awaited, awaited, awaitedAll_pollAll content]
  | dataCell content classes => by rw [poll, awaited, awaited, awaitedAll_pollAll content]
  | container content classes => by rw [poll, awaited, awaited, awaitedAll_pollAll content]

theorem awaitedAll_pollAll : (ts : List Task) → awaitedAll (pollAll ts) = awaitedAll ts
  | [] => rfl
  | t :: rest => by rw [pollAll, awaitedAll, awaitedAll, awaited_poll t, awaitedAll_pollAll rest]

end

mutual

theorem rounds_poll : (t : Task) → t.poll.rounds = t.rounds - 1
  | done _ => rfl
  | image ⟨0, _⟩ _ _ => rfl
  | image ⟨_ + 1, _⟩ _ _ => rfl
  | table heads cells => by
    rw [poll, rounds, rounds, roundsOf_pollAll heads, roundsOf_pollAll cells]
    omega
  | headingCell content _ => roundsOf_pollAll content
  | dataCell content _ => roundsOf_pollAll content
  | container content _ => roundsOf_pollAll content

theorem roundsOf_pollAll : (ts : List Task) → roundsOf (pollAll ts) = roundsOf ts - 1
  | [] => rfl
  | t :: rest => by
    rw [pollAll, roundsOf, roundsOf, rounds_poll t, roundsOf_pollAll rest]
    omega

end

mutual

theorem element?_of_rounds_eq_zero : (t : Task) → t.rounds = 0 → t.element? = t.awaited
  | done _, _ => rfl
  | image _ _ _, h => absurd h (Nat.succ_ne_zero _)
  | table heads cells, h => by
    rw [rounds] at h
    rw [element?, awaited, elements_of_rounds_eq_zero heads (by omega),
      elements_of_rounds_eq_zero cells (by omega)]
  | headingCell content _, h => by rw [element?, awaited, elements_of_rounds_eq_zero content h]
  | dataCell content _, h => by rw [element?, awaited, elements_of_rounds_eq_zero content h]
  | container content _, h => by rw [element?, awaited, elements_of_rounds_eq_zero content h]

theorem elements_of_rounds_eq_zero : (ts : List Task) → roundsOf ts = 0 → elements ts = awaitedAll ts
  | [], _ => rfl
  | t :: rest, h => by
    rw [roundsOf] at h
    rw [elements, awaitedAll, element?_of_rounds_eq_zero t (by omega),
      elements_of_rounds_eq_zero rest (by omega)]

end

theorem element?_pollTimes {n : Nat} {t : Task} (h : t.rounds = n) :
    (pollTimes n t).element? = t.awaited := by
  induction n generalizing t with
  | zero => exact element?_of_rounds_eq_zero t h
  | succ n ih =>
    have hrounds : t.poll.rounds = n := by rw [rounds_poll, h]; rfl
    rw [pollTimes, ih hrounds, awaited_poll]

theorem finish_eq_awaited (t : Task) : t.finish = t.awaited := element?_pollTimes rfl

end Task

/-! ## Starting everything first -/

namespace Walk

open Node

variable (w : Walk)

/-- Asks for the image of a layer and waits for its address. -/
def awaitImage (layer : Layer) : StateM Ledger (Option String) := do
  modify (Ledger.record (.image w.fileKey layer.id))
  pure (w.image layer.id).address?

/-- The depth-first rendering of a node with what the walk knows and asks. -/
def render : Node → StateM Ledger (Option Element) :=
  renderWith (Ledger.componentFor w.reuse) w.awaitImage

def renderAll : List Node → StateM Ledger (List Element) :=
  renderAllWith (Ledger.componentFor w.reuse) w.awaitImage

theorem renderAll_nil : w.renderAll [] = pure [] := by
  rw [renderAll, renderAllWith]

theorem renderAll_cons (n : Node) (ns : List Node) :
    w.renderAll (n :: ns) = (do
      let element ← w.render n
      let elements ← w.renderAll ns
      pure (element.toList ++ elements)) := by
  rw [renderAll, renderAllWith]
  rfl

theorem render_mk (layer : Layer) (children : List Node) :
    w.render (.mk layer children) = (do
      match ← layer.classify (Ledger.componentFor w.reuse) with
      | .empty => pure none
      | .reference name => pure (some (.reference name))
      | .image => do
        let address ← w.awaitImage layer
        pure (address.map (ImageForm.plain.element · layer.classes))
      | .imageContainer => do
        let address ← w.awaitImage layer
        pure (address.map (ImageForm.contained.element · layer.classes))
      | .text => pure (some (.text (textOf layer) layer.classes))
      | .label => pure (labelOf (firstText? children))
      | .input => pure (some (inputOf layer (firstText? children)))
      | .table => do
        let headElements ← w.renderAll (heads children)
        let cellElements ← w.renderAll (cells children)
        pure (some (.table headElements cellElements))
      | .headingCell => do
        let content ← w.renderAll children
        pure (some (.headingCell content layer.classes))
      | .dataCell => do
        let content ← w.renderAll children
        pure (some (.dataCell content layer.classes))
      | .container => do
        let content ← w.renderAll children
        pure (some (.container content layer.classes))) := by
  rw [render, renderWith]
  rfl

theorem startHeads_eq (columns : List Node) :
    w.startHeads columns = w.startAll (heads columns) := by
  induction columns with
  | nil => rfl
  | cons column columns ih =>
    obtain ⟨layer, children⟩ := column
    cases hvisible : (Node.mk layer children).visible with
    | false =>
      rw [heads, acrossColumns_of_hidden 0 hvisible]
      cases children with
      | nil => exact ih
      | cons head rest =>
        exact (if_neg (ne_true_of_eq_false hvisible)).trans ih
    | true =>
      rw [heads, acrossColumns_of_visible 0 hvisible]
      cases children with
      | nil => exact ih
      | cons head rest =>
        refine (if_pos hvisible).trans ?_
        rw [ih]
        rfl

theorem startCells_eq (columns : List Node) :
    w.startCells columns = w.startAll (cells columns) := by
  induction columns with
  | nil => rfl
  | cons column columns ih =>
    obtain ⟨layer, children⟩ := column
    cases hvisible : (Node.mk layer children).visible with
    | false =>
      rw [cells, acrossColumns_of_hidden 1 hvisible]
      rcases children with _ | ⟨head, _ | ⟨cell, rest⟩⟩
      · exact ih
      · exact ih
      · exact (if_neg (ne_true_of_eq_false hvisible)).trans ih
    | true =>
      rw [cells, acrossColumns_of_visible 1 hvisible]
      rcases children with _ | ⟨head, _ | ⟨cell, rest⟩⟩
      · exact ih
      · exact ih
      · refine (if_pos hvisible).trans ?_
        rw [ih]
        rfl

theorem awaitedAll_startAll {ns : List Node}
    (h : ∀ n ∈ ns, Task.awaited <$> w.start n = w.render n) :
    Task.awaitedAll <$> w.startAll ns = w.renderAll ns := by
  induction ns with
  | nil => simp [startAll, renderAll_nil, Task.awaitedAll]
  | cons n ns ih =>
    obtain ⟨hn, hns⟩ := List.forall_mem_cons.mp h
    rw [renderAll_cons, ← hn, ← ih hns]
    simp [startAll, Task.awaitedAll]

/-- To start all nodes and then to wait is to render depth first. -/
theorem awaited_start (n : Node) : Task.awaited <$> w.start n = w.render n := by
  induction n using Node.induction with
  | step layer children hchildren hheads hcells =>
    have hcontent := w.awaitedAll_startAll hchildren
    have htop := w.awaitedAll_startAll hheads
    have hbottom := w.awaitedAll_startAll hcells
    -- Both begin with the layer's role; from there on it is one equation for each role.
    rw [start, render_mk, map_bind]
    refine bind_congr fun role => ?_
    cases role with
    | image => simp [startImage, awaitImage, Task.awaited]
    | imageContainer => simp [startImage, awaitImage, Task.awaited]
    | table =>
      rw [← htop, ← hbottom, startHeads_eq, startCells_eq]
      simp [Task.awaited]
    | headingCell => rw [← hcontent]; simp [Task.awaited]
    | dataCell => rw [← hcontent]; simp [Task.awaited]
    | container => rw [← hcontent]; simp [Task.awaited]
    | text => simp [Task.awaited, Task.shown]
    | label => simp [Task.awaited]
    | input => simp [Task.awaited, Task.shown]
    | reference name => simp [Task.awaited, Task.shown]
    | empty => simp [Task.awaited]

/-- The element and the ledger of a conversion are those of the depth-first rendering. -/
theorem finish_start (n : Node) (l : Ledger) :
    ((w.start n l).1.finish, (w.start n l).2) = w.render n l := by
  rw [← w.awaited_start n, Task.finish_eq_awaited]
  rfl

end Walk

namespace Conversion

def walk (source : Source) (o : Options) (catalogue : Catalogue) (fileKey : String)
    (root : Node) : Walk :=
  ⟨fileKey, o.reuseFor (componentName root.layer.displayName) catalogue, source.image fileKey⟩

/-- The conversion that an element and a ledger of a root amount to; the things asked for. -/
def ofResult (root : Node) (element : Option Element) (ledger : Ledger) :
    Conversion × List Call :=
  (⟨componentName root.layer.displayName, element, ledger.imports.names⟩, ledger.calls)

def depthFirst (source : Source) (o : Options) (catalogue : Catalogue) (fileKey : String)
    (root : Node) : Conversion × List Call :=
  let (element, ledger) :=
    (walk source o catalogue fileKey root).render root.inReadingOrder .empty
  ofResult root element ledger

theorem layer_inReadingOrder (root : Node) : root.inReadingOrder.layer = root.layer := by
  cases root
  rfl

theorem ofRoot_eq_depthFirst (source : Source) (o : Options) (catalogue : Catalogue)
    (fileKey : String) (root : Node) :
    ofRoot source o catalogue fileKey root = depthFirst source o catalogue fileKey root := by
  rw [depthFirst, ← Walk.finish_start]
  simp only [ofRoot, layer_inReadingOrder]
  rfl

theorem ofRoot_eq (source : Source) (o : Options) (catalogue : Catalogue) (fileKey : String)
    (root : Node) :
    ofRoot source o catalogue fileKey root =
      ofResult root ((walk source o catalogue fileKey root).render root.inReadingOrder .empty).1
        ((walk source o catalogue fileKey root).render root.inReadingOrder .empty).2 :=
  ofRoot_eq_depthFirst source o catalogue fileKey root

end Conversion

end DesignComponents
