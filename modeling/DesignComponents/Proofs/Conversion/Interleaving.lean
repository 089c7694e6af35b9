import Mathlib.Logic.Relation
import DesignComponents.Proofs.Conversion.DepthFirst
import DesignComponents.Proofs.Conversion.Ledger

/-!
# Rendering with images under way

A design is rendered by polling. Each poll goes through the parts in their order, begins those
that were not begun, and takes the images that have come; how many polls an image stays away is
open. The first poll begins everything, before any image can change the order, so that every
complete run ends where the depth-first rendering does.
-/

namespace DesignComponents

open Node

/-- A part of a design on its way to an element. What gathers other parts waits for all of them
and then takes their elements in the order of the parts, not of their coming. -/
inductive Job where
  | waiting (n : Node)
  | fetching (layer : Layer) (form : ImageForm)
  | gathering (content : List Job) (shape : List Element → Element)
  | table (heads cells : List Job)
  | finished (element : Option Element)

namespace Job

def elements? : List Job → Option (List Element)
  | [] => some []
  | finished element :: rest => (elements? rest).map (element.toList ++ ·)
  | _ :: _ => none

/-- A job that waited for others is finished with the last of them. -/
def settle : Job → Job
  | gathering content shape =>
    match elements? content with
    | some elements => finished (some (shape elements))
    | none => gathering content shape
  | table heads cells =>
    match elements? heads, elements? cells with
    | some headElements, some cellElements =>
      finished (some (.table headElements cellElements))
    | _, _ => table heads cells
  | j => j

end Job

namespace Walk

/-- Begins a node: classifies its layer, asks for its image, lines up the nodes inside it. -/
def begin (w : Walk) : Node → StateM Ledger Job
  | .mk layer children => do
    match ← layer.classify (Ledger.componentFor w.reuse) with
    | .empty => pure (.finished none)
    | .reference name => pure (.finished (some (.reference name)))
    | .image => do
      modify (Ledger.record (.image w.fileKey layer.id))
      pure (.fetching layer .plain)
    | .imageContainer => do
      modify (Ledger.record (.image w.fileKey layer.id))
      pure (.fetching layer .contained)
    | .text => pure (.finished (some (.text (textOf layer) layer.classes)))
    | .label => pure (.finished (labelOf (firstText? children)))
    | .input => pure (.finished (some (inputOf layer (firstText? children))))
    | .table => pure (.table ((heads children).map .waiting) ((cells children).map .waiting))
    | .headingCell => pure (.gathering (children.map .waiting) (.headingCell · layer.classes))
    | .dataCell => pure (.gathering (children.map .waiting) (.dataCell · layer.classes))
    | .container => pure (.gathering (children.map .waiting) (.container · layer.classes))

def arrival (w : Walk) (layer : Layer) (form : ImageForm) : Option Element :=
  (w.image layer.id).address?.map (form.element · layer.classes)

end Walk

mutual

/-- One poll. An image that was asked for may stay away or have come. -/
inductive Poll (w : Walk) : Job → Ledger → Job → Ledger → Prop
  | waiting {n : Node} {l l' : Ledger} {j : Job} :
      Poll w (w.begin n l).1 (w.begin n l).2 j l' → Poll w (.waiting n) l j l'
  | pending (layer : Layer) (form : ImageForm) (l : Ledger) :
      Poll w (.fetching layer form) l (.fetching layer form) l
  | arrived (layer : Layer) (form : ImageForm) (l : Ledger) :
      Poll w (.fetching layer form) l (.finished (w.arrival layer form)) l
  | gathering {content content' : List Job} {l l' : Ledger} (shape : List Element → Element) :
      PollAll w content l content' l' →
      Poll w (.gathering content shape) l (Job.settle (.gathering content' shape)) l'
  | table {heads heads' cells cells' : List Job} {l l' l'' : Ledger} :
      PollAll w heads l heads' l' → PollAll w cells l' cells' l'' →
      Poll w (.table heads cells) l (Job.settle (.table heads' cells')) l''
  | finished (element : Option Element) (l : Ledger) :
      Poll w (.finished element) l (.finished element) l

/-- One poll of jobs from first to last. -/
inductive PollAll (w : Walk) : List Job → Ledger → List Job → Ledger → Prop
  | nil (l : Ledger) : PollAll w [] l [] l
  | cons {j j' : Job} {js js' : List Job} {l l' l'' : Ledger} :
      Poll w j l j' l' → PollAll w js l' js' l'' → PollAll w (j :: js) l (j' :: js') l''

end

def Run (w : Walk) : Job × Ledger → Job × Ledger → Prop :=
  Relation.ReflTransGen fun before after => Poll w before.1 before.2 after.1 after.2

/-! ## What a job comes to -/

namespace Walk

mutual

/-- The element that a job comes to if nothing else is polled before it is finished. -/
def complete (w : Walk) : Job → StateM Ledger (Option Element)
  | .waiting n => w.render n
  | .fetching layer form => pure (w.arrival layer form)
  | .gathering content shape => do
    let elements ← completeAll w content
    pure (some (shape elements))
  | .table heads cells => do
    let headElements ← completeAll w heads
    let cellElements ← completeAll w cells
    pure (some (.table headElements cellElements))
  | .finished element => pure element

def completeAll (w : Walk) : List Job → StateM Ledger (List Element)
  | [] => pure []
  | j :: rest => do
    let element ← complete w j
    let elements ← completeAll w rest
    pure (element.toList ++ elements)

end

variable (w : Walk)

theorem completeAll_waiting (ns : List Node) :
    w.completeAll (ns.map .waiting) = w.renderAll ns := by
  induction ns with
  | nil => rw [List.map_nil, completeAll, renderAll_nil]
  | cons n ns ih => rw [List.map_cons, completeAll, complete, renderAll_cons, ih]

theorem complete_begin (n : Node) : (w.begin n >>= w.complete) = w.render n := by
  obtain ⟨layer, children⟩ := n
  rw [begin, render_mk, bind_assoc]
  refine bind_congr fun role => ?_
  cases role with
  | image => simp [complete, arrival, awaitImage]
  | imageContainer => simp [complete, arrival, awaitImage]
  | table => simp [complete, completeAll_waiting]
  | headingCell => simp [complete, completeAll_waiting]
  | dataCell => simp [complete, completeAll_waiting]
  | container => simp [complete, completeAll_waiting]
  | text | label | input | reference _ | empty => simp [complete]

theorem completeAll_of_elements? {js : List Job} {elements : List Element}
    (h : Job.elements? js = some elements) : w.completeAll js = pure elements := by
  induction js generalizing elements with
  | nil => rw [← Option.some.inj h, completeAll]
  | cons j js ih =>
    cases j with
    | finished element =>
      obtain ⟨rest, hrest, rfl⟩ := Option.map_eq_some_iff.mp h
      simp [completeAll, complete, ih hrest]
    | waiting _ | fetching _ _ | gathering _ _ | table _ _ => exact absurd h (by simp [Job.elements?])

theorem complete_settle (j : Job) : w.complete j.settle = w.complete j := by
  cases j with
  | gathering content shape =>
    rw [Job.settle]
    split
    · rename_i elements helements
      simp [complete, w.completeAll_of_elements? helements]
    · rfl
  | table heads cells =>
    rw [Job.settle]
    split
    · rename_i headElements cellElements hheads hcells
      simp [complete, w.completeAll_of_elements? hheads, w.completeAll_of_elements? hcells]
    · rfl
  | waiting _ | fetching _ _ | finished _ => rfl

end Walk

/-! ## The first poll settles everything -/

variable {w : Walk}

mutual

/-- A poll leaves the ledger as it will be in the end, and a job that touches it no more. -/
theorem Poll.complete {j j' : Job} {l l' : Ledger} :
    Poll w j l j' l' → ∃ element, w.complete j l = (element, l') ∧ w.complete j' = pure element
  | .waiting (n := n) h => by
    -- A node is begun and polled in the same poll.
    obtain ⟨element, hbegun, hafter⟩ := h.complete
    refine ⟨element, ?_, hafter⟩
    rw [Walk.complete, ← w.complete_begin n]
    exact hbegun
  | .pending layer form l => ⟨w.arrival layer form, rfl, rfl⟩
  | .arrived layer form l => ⟨w.arrival layer form, rfl, rfl⟩
  | .gathering shape h => by
    obtain ⟨elements, hcontent, hafter⟩ := h.completeAll
    refine ⟨some (shape elements), ?_, ?_⟩
    · rw [Walk.complete, Ledger.bind_eq hcontent]
      rfl
    · rw [w.complete_settle, Walk.complete, hafter, pure_bind]
  | .table hheads hcells => by
    obtain ⟨headElements, hhead, hheadAfter⟩ := hheads.completeAll
    obtain ⟨cellElements, hcell, hcellAfter⟩ := hcells.completeAll
    refine ⟨some (.table headElements cellElements), ?_, ?_⟩
    · rw [Walk.complete, Ledger.bind_eq hhead, Ledger.bind_eq hcell]
      rfl
    · rw [w.complete_settle, Walk.complete, hheadAfter, hcellAfter, pure_bind, pure_bind]
  | .finished element l => ⟨element, rfl, rfl⟩

theorem PollAll.completeAll {js js' : List Job} {l l' : Ledger} :
    PollAll w js l js' l' →
      ∃ elements, w.completeAll js l = (elements, l') ∧ w.completeAll js' = pure elements
  | .nil l => ⟨[], rfl, rfl⟩
  | .cons h hrest => by
    obtain ⟨element, hfirst, hfirstAfter⟩ := h.complete
    obtain ⟨elements, hothers, hothersAfter⟩ := hrest.completeAll
    refine ⟨element.toList ++ elements, ?_, ?_⟩
    · rw [Walk.completeAll, Ledger.bind_eq hfirst, Ledger.bind_eq hothers]
      rfl
    · rw [Walk.completeAll, hfirstAfter, hothersAfter, pure_bind, pure_bind]

end

theorem complete_of_run {s t : Job × Ledger} (h : Run w s t) :
    w.complete t.1 t.2 = w.complete s.1 s.2 := by
  induction h with
  | refl => rfl
  | tail _ hpoll ih =>
    -- What was done by this poll was still to be done before it.
    obtain ⟨element, hbefore, hafter⟩ := hpoll.complete
    rw [← ih, hbefore, hafter]
    rfl

/-! ## Nothing keeps a run from ending -/

theorem Job.elements?_map_finished (elements : List (Option Element)) :
    Job.elements? (elements.map .finished) = some (elements.flatMap Option.toList) := by
  induction elements with
  | nil => rfl
  | cons element elements ih => rw [List.map_cons, Job.elements?, ih]; rfl

namespace Job

variable (w) in
/-- Whatever the ledger, one poll in which everything comes finishes the job. -/
def Finishable (j : Job) : Prop := ∀ l, ∃ element l', Poll w j l (.finished element) l'

theorem exists_pollAll_finished {js : List Job} (h : ∀ j ∈ js, j.Finishable w) (l : Ledger) :
    ∃ (elements : List (Option Element)) (l' : Ledger),
      PollAll w js l (elements.map .finished) l' := by
  induction js generalizing l with
  | nil => exact ⟨[], l, .nil l⟩
  | cons j js ih =>
    obtain ⟨hj, hjs⟩ := List.forall_mem_cons.mp h
    obtain ⟨element, l', hpoll⟩ := hj l
    obtain ⟨elements, l'', hpolls⟩ := ih hjs l'
    exact ⟨element :: elements, l'', .cons hpoll hpolls⟩

theorem finishable_gathering {content : List Job} (h : ∀ j ∈ content, j.Finishable w)
    (shape : List Element → Element) : (gathering content shape).Finishable w := by
  intro l
  obtain ⟨elements, l', hpolls⟩ := exists_pollAll_finished h l
  have hpoll := Poll.gathering shape hpolls
  rw [settle, elements?_map_finished] at hpoll
  exact ⟨_, l', hpoll⟩

theorem finishable_table {heads cells : List Job} (hheads : ∀ j ∈ heads, j.Finishable w)
    (hcells : ∀ j ∈ cells, j.Finishable w) : (table heads cells).Finishable w := by
  intro l
  obtain ⟨headElements, l', hheadPolls⟩ := exists_pollAll_finished hheads l
  obtain ⟨cellElements, l'', hcellPolls⟩ := exists_pollAll_finished hcells l'
  have hpoll := Poll.table hheadPolls hcellPolls
  rw [settle, elements?_map_finished, elements?_map_finished] at hpoll
  exact ⟨_, l'', hpoll⟩

theorem finishable_fetching (layer : Layer) (form : ImageForm) :
    (fetching layer form).Finishable w := fun l => ⟨_, l, .arrived layer form l⟩

theorem finishable_finished (element : Option Element) : (finished element).Finishable w :=
  fun l => ⟨element, l, .finished element l⟩

theorem finishable_map_waiting {ns : List Node} (h : ∀ n ∈ ns, (waiting n).Finishable w) :
    ∀ j ∈ ns.map waiting, j.Finishable w := by
  intro j hj
  obtain ⟨n, hn, rfl⟩ := List.mem_map.mp hj
  exact h n hn

theorem finishable_begin {layer : Layer} {children : List Node}
    (hchildren : ∀ c ∈ children, (waiting c).Finishable w)
    (hheads : ∀ c ∈ heads children, (waiting c).Finishable w)
    (hcells : ∀ c ∈ cells children, (waiting c).Finishable w) (l : Ledger) :
    (w.begin (.mk layer children) l).1.Finishable w := by
  rw [Walk.begin]
  generalize hclass :
    Layer.classify (m := StateM Ledger) (Ledger.componentFor w.reuse) layer l = classified
  obtain ⟨role, l'⟩ := classified
  rw [Ledger.bind_eq hclass]
  have hcontent := finishable_map_waiting hchildren
  cases role with
  | image => exact finishable_fetching layer .plain
  | imageContainer => exact finishable_fetching layer .contained
  | table => exact finishable_table (finishable_map_waiting hheads) (finishable_map_waiting hcells)
  | headingCell => exact finishable_gathering hcontent (.headingCell · layer.classes)
  | dataCell => exact finishable_gathering hcontent (.dataCell · layer.classes)
  | container => exact finishable_gathering hcontent (.container · layer.classes)
  | text | label | input | reference _ | empty => exact finishable_finished _

theorem finishable_waiting (n : Node) : (waiting n).Finishable w := by
  induction n using Node.induction with
  | step layer children hchildren hheads hcells =>
    intro l
    obtain ⟨element, l', hpoll⟩ := finishable_begin hchildren hheads hcells l _
    exact ⟨element, l', .waiting hpoll⟩

mutual

theorem finishable : (j : Job) → j.Finishable w
  | waiting n => finishable_waiting n
  | fetching layer form => finishable_fetching layer form
  | gathering content shape => finishable_gathering (finishable_all content) shape
  | table heads cells => finishable_table (finishable_all heads) (finishable_all cells)
  | finished element => finishable_finished element

theorem finishable_all : (js : List Job) → ∀ j ∈ js, j.Finishable w
  | [] => List.forall_mem_nil _
  | j :: js => List.forall_mem_cons.mpr ⟨finishable j, finishable_all js⟩

end

end Job

/-- However a run goes on, it can end, and it ends with the rendering of where it began. -/
theorem run_finished_iff (n : Node) (l : Ledger) (element : Option Element) (l' : Ledger) :
    Run w (.waiting n, l) (.finished element, l') ↔ w.render n l = (element, l') := by
  constructor
  · intro h
    exact (complete_of_run h).symm
  · intro h
    obtain ⟨element', l'', hpoll⟩ := Job.finishable (w := w) (.waiting n) l
    have hrun : Run w (.waiting n, l) (.finished element', l'') := .single hpoll
    have hsame : w.render n l = (element', l'') := (complete_of_run hrun).symm
    obtain ⟨rfl, rfl⟩ := Prod.mk.inj (h.symm.trans hsame)
    exact hrun

/-- The source with other delays for its images. -/
def Source.delayed (source : Source) (delay : (fileKey id : String) → Nat) : Source :=
  { source with
    image := fun fileKey id => { source.image fileKey id with delay := delay fileKey id } }

namespace Conversion

/-- What conversions of a root can come to, and the things asked for on the way, in order. -/
inductive Completes (source : Source) (o : Options) (catalogue : Catalogue) (fileKey : String)
    (root : Node) : Conversion × List Call → Prop
  | intro {element : Option Element} {ledger : Ledger} :
      Run (walk source o catalogue fileKey root) (.waiting root.inReadingOrder, .empty)
        (.finished element, ledger) →
      Completes source o catalogue fileKey root (ofResult root element ledger)

theorem depthFirst_delayed (source : Source) (delay : (fileKey id : String) → Nat) (o : Options)
    (catalogue : Catalogue) (fileKey : String) (root : Node) :
    depthFirst (source.delayed delay) o catalogue fileKey root =
      depthFirst source o catalogue fileKey root := rfl

theorem completes_depthFirst (source : Source) (o : Options) (catalogue : Catalogue)
    (fileKey : String) (root : Node) :
    Completes source o catalogue fileKey root (depthFirst source o catalogue fileKey root) :=
  .intro ((run_finished_iff root.inReadingOrder .empty _ _).mpr rfl)

/-- The order in which images come cannot be seen: all complete runs of a conversion have the
component and the calls of the depth-first rendering, no run is ever stuck, and a conversion is
such a run whatever the delays of its images. -/
theorem completes_iff_depthFirst (source : Source) (o : Options) (catalogue : Catalogue)
    (fileKey : String) (root : Node) :
    (∀ result, Completes source o catalogue fileKey root result ↔
      result = depthFirst source o catalogue fileKey root) ∧
    (∀ job ledger, ∃ element ledger',
      Poll (walk source o catalogue fileKey root) job ledger (.finished element) ledger') ∧
    ∀ delay, ofRoot (source.delayed delay) o catalogue fileKey root =
      depthFirst source o catalogue fileKey root := by
  refine ⟨?_, ?_, ?_⟩
  · intro result
    constructor
    · rintro ⟨hrun⟩
      have hrender := (run_finished_iff _ _ _ _).mp hrun
      rw [depthFirst, hrender]
    · rintro rfl
      exact completes_depthFirst source o catalogue fileKey root
  · intro job ledger
    exact Job.finishable job ledger
  · intro delay
    rw [ofRoot_eq_depthFirst, depthFirst_delayed]

end Conversion

end DesignComponents
