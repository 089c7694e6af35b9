import DesignComponents.Api.Client
import DesignComponents.Proofs.Design.ReadingOrder
import DesignComponents.Proofs.Json.Numbers

/-!
# Places in designs that are read

A design comes as text. Its numbers are read from there, so that every layer has a place and all
layers can be compared in reading order.
-/

namespace DesignComponents

namespace Json

theorem isNaN_number {j : Json} (h : j.Numeric) {x : Double} (hx : number? j = some x) :
    x.isNaN = false := by
  cases h with
  | integer n =>
    rw [← Option.some.inj hx]
    exact Binary.isNaN_nearest ..
  | float hnumber =>
    rw [← Option.some.inj hx]
    exact hnumber
  | null | bool _ | string _ | array _ | object _ | void => cases hx

namespace Slot

/-- What a slot says, if anything, is numeric. -/
def Numeric : Slot → Prop
  | value j => j.Numeric
  | unnamed => True
  | beyond => True

end Slot

theorem Numeric.field {fields : List (String × Json)} (h : ∀ field ∈ fields, field.2.Numeric)
    {name : String} {j : Json} (hj : field? name fields = some j) : j.Numeric := by
  induction fields with
  | nil => cases hj
  | cons field fields ih =>
    obtain ⟨hfield, hfields⟩ := List.forall_mem_cons.mp h
    rw [field?] at hj
    split at hj
    · rw [← Option.some.inj hj]
      exact hfield
    · exact ih hfields hj

theorem numeric_itemSlots (n : Nat) {items : List Json} (h : ∀ j ∈ items, j.Numeric) :
    ∀ s ∈ itemSlots n items, s.Numeric := by
  induction n generalizing items with
  | zero => exact List.forall_mem_nil _
  | succ n ih =>
    cases items with
    | nil => exact List.forall_mem_cons.mpr ⟨trivial, ih h⟩
    | cons j items =>
      obtain ⟨hj, hitems⟩ := List.forall_mem_cons.mp h
      exact List.forall_mem_cons.mpr ⟨hj, ih hitems⟩

theorem numeric_slots {names : List String} {j : Json} (h : j.Numeric) {slots : List Slot}
    (hslots : slots? names j = some slots) : ∀ s ∈ slots, s.Numeric := by
  cases h with
  | array hitems =>
    rw [slots?] at hslots
    split at hslots
    · rw [← Option.some.inj hslots]
      exact numeric_itemSlots _ hitems
    · cases hslots
  | object hfields =>
    rw [slots?] at hslots
    split at hslots
    · rw [← Option.some.inj hslots]
      intro s hs
      obtain ⟨name, _, rfl⟩ := List.mem_map.mp hs
      cases hfield : field? name _ with
      | none => trivial
      | some j => exact Numeric.field hfields hfield
    · cases hslots
  | null | bool _ | integer _ | float _ | string _ | void => cases hslots

namespace Fields

variable {α β : Type} {P : α → Prop} {Q : β → Prop}

/-- From numeric slots, what is decoded has the property, and the slots left are numeric. -/
def Yields (P : α → Prop) (fields : Fields α) : Prop :=
  ∀ slots : List Slot, (∀ s ∈ slots, s.Numeric) → ∀ a rest, fields slots = some (a, rest) →
    P a ∧ ∀ s ∈ rest, s.Numeric

theorem Yields.pure {a : α} (h : P a) : Yields P (pure a) := by
  intro slots hslots a' rest heq
  obtain ⟨rfl, rfl⟩ := Prod.mk.inj (Option.some.inj heq)
  exact ⟨h, hslots⟩

theorem Yields.bind {fields : Fields α} {next : α → Fields β} (h : Yields P fields)
    (hnext : ∀ a, P a → Yields Q (next a)) : Yields Q (fields >>= next) := by
  intro slots hslots b rest heq
  obtain ⟨⟨a, middle⟩, hfirst, hsecond⟩ := Option.bind_eq_some_iff.mp heq
  obtain ⟨ha, hmiddle⟩ := h slots hslots a middle hfirst
  exact hnext a ha middle hmiddle b rest hsecond

/-- A field whose value does not matter. -/
theorem Yields.skip {fields : Fields α} {next : α → Fields β} (h : Yields P fields)
    (hnext : ∀ a, Yields Q (next a)) : Yields Q (fields >>= next) :=
  h.bind fun a _ => hnext a

theorem yields_next : Yields Slot.Numeric next := by
  intro slots hslots s rest heq
  cases slots with
  | nil => cases heq
  | cons slot slots =>
    obtain ⟨rfl, rfl⟩ := Prod.mk.inj (Option.some.inj heq)
    exact List.forall_mem_cons.mp hslots

theorem yields_decode {decode : Json → Option α} (h : ∀ j, j.Numeric → ∀ a ∈ decode j, P a)
    {j : Json} (hj : j.Numeric) : Yields P (decode j : Fields α) := by
  intro slots hslots a rest heq
  obtain ⟨a', ha, hpair⟩ := Option.bind_eq_some_iff.mp heq
  obtain ⟨rfl, rfl⟩ := Prod.mk.inj (Option.some.inj hpair)
  exact ⟨h j hj _ ha, hslots⟩

theorem yields_failure : Yields P (failure : Fields α) := by
  intro slots hslots a rest heq
  cases heq

theorem yields_required {decode : Json → Option α} (h : ∀ j, j.Numeric → ∀ a ∈ decode j, P a) :
    Yields P (required decode) := by
  refine yields_next.bind fun s hs => ?_
  cases s with
  | value j => exact yields_decode h hs
  | unnamed | beyond => exact yields_failure

theorem yields_defaulted {default : α} {decode : Json → Option α} (hdefault : P default)
    (h : ∀ j, j.Numeric → ∀ a ∈ decode j, P a) : Yields P (defaulted default decode) := by
  refine yields_next.bind fun s hs => ?_
  cases s with
  | value j => exact yields_decode h hs
  | unnamed | beyond => exact .pure hdefault

theorem forall_mem_nullable {decode : Json → Option α}
    (h : ∀ j, j.Numeric → ∀ a ∈ decode j, P a) {j : Json} (hj : j.Numeric) :
    ∀ a? ∈ nullable decode j, ∀ a ∈ a?, P a := by
  intro a? ha? a ha
  unfold nullable at ha?
  split at ha?
  · rw [← Option.some.inj ha?] at ha
    cases ha
  · obtain ⟨a', ha', rfl⟩ := Option.map_eq_some_iff.mp ha?
    rw [← Option.some.inj ha]
    exact h j hj a' ha'

theorem yields_optional {decode : Json → Option α} (h : ∀ j, j.Numeric → ∀ a ∈ decode j, P a) :
    Yields (fun a? => ∀ a ∈ a?, P a) (optional decode) := by
  refine yields_next.bind fun s hs => ?_
  cases s with
  | value j => exact yields_decode (fun j hj => forall_mem_nullable h hj) hs
  | unnamed => exact .pure fun a ha => absurd ha (Option.not_mem_none a)
  | beyond => exact yields_failure

theorem yields_record {names : List String} {fields : Fields α} (h : Yields P fields) {j : Json}
    (hj : j.Numeric) {a : α} (ha : record names fields j = some a) : P a := by
  obtain ⟨slots, hslots, hrun⟩ := Option.bind_eq_some_iff.mp ha
  obtain ⟨⟨a', rest⟩, hfields, rfl⟩ := Option.map_eq_some_iff.mp hrun
  exact (h slots (numeric_slots hj hslots) a' rest hfields).1

end Fields

section Entries

variable {α : Type} {P : α → Prop}

theorem forall_mem_putEntry {name : String} {a : α} (ha : P a) {entries : List (String × α)}
    (h : ∀ entry ∈ entries, P entry.2) : ∀ entry ∈ putEntry name a entries, P entry.2 := by
  induction entries with
  | nil =>
    intro entry hentry
    rw [List.mem_singleton.mp hentry]
    exact ha
  | cons entry entries ih =>
    obtain ⟨hfirst, hrest⟩ := List.forall_mem_cons.mp h
    rw [putEntry]
    split
    · exact List.forall_mem_cons.mpr ⟨ha, hrest⟩
    · exact List.forall_mem_cons.mpr ⟨hfirst, ih hrest⟩

theorem forall_mem_foldlM_putEntry {decode : Json → Option α}
    (h : ∀ j, j.Numeric → ∀ a ∈ decode j, P a) {fields : List (String × Json)}
    (hfields : ∀ field ∈ fields, field.2.Numeric) {done entries : List (String × α)}
    (hdone : ∀ entry ∈ done, P entry.2)
    (heq : fields.foldlM (fun done field => (decode field.2).map fun value =>
      putEntry field.1 value done) done = some entries) : ∀ entry ∈ entries, P entry.2 := by
  induction fields generalizing done with
  | nil =>
    rw [← Option.some.inj heq]
    exact hdone
  | cons field fields ih =>
    obtain ⟨hfield, hrest⟩ := List.forall_mem_cons.mp hfields
    rw [List.foldlM_cons] at heq
    obtain ⟨next, hnext, heq⟩ := Option.bind_eq_some_iff.mp heq
    obtain ⟨a, ha, rfl⟩ := Option.map_eq_some_iff.mp hnext
    exact ih hrest (forall_mem_putEntry (h field.2 hfield a ha) hdone) heq

theorem forall_mem_entries {decode : Json → Option α} (h : ∀ j, j.Numeric → ∀ a ∈ decode j, P a)
    {j : Json} (hj : j.Numeric) {entries : List (String × α)}
    (hentries : entries? decode j = some entries) : ∀ entry ∈ entries, P entry.2 := by
  cases hj with
  | object hfields =>
    exact forall_mem_foldlM_putEntry h hfields (List.forall_mem_nil _) hentries
  | null | bool _ | integer _ | float _ | string _ | array _ | void => cases hentries

end Entries

end Json

open Json Json.Fields

/-- Both coordinates of the box are numbers. -/
def Box.Placed (b : Box) : Prop := b.top.isNaN = false ∧ b.left.isNaN = false

theorem Box.placed_ofJson {j : Json} (hj : j.Numeric) {b : Box} (h : Box.ofJson? j = some b) :
    b.Placed := by
  have hnumber : Yields (fun x : Double => x.isNaN = false) (defaulted 0 number?) :=
    yields_defaulted Binary.isNaN_zero fun j hj x hx => isNaN_number hj hx
  refine yields_record ?_ hj h
  refine hnumber.bind fun left hleft => hnumber.bind fun top htop => ?_
  refine hnumber.bind fun _ _ => hnumber.bind fun _ _ => ?_
  exact .pure ⟨htop, hleft⟩

theorem Layer.placed_of_box {l : Layer} (h : ∀ b ∈ l.box, b.Placed) : l.Placed := by
  unfold Placed top left
  cases hbox : l.box with
  | none => exact ⟨Binary.isNaN_zero, Binary.isNaN_zero⟩
  | some b => exact h b hbox

theorem Layer.placed_ofJson {j : Json} (hj : j.Numeric) {l : Layer}
    (h : Layer.ofJson? j = some l) : l.Placed := by
  have hbox : Yields (fun box? => ∀ b ∈ box?, b.Placed) (optional Box.ofJson?) :=
    yields_optional fun j hj b hb => Box.placed_ofJson hj hb
  have hdefaulted : ∀ {α : Type} (default : α) (decode : Json → Option α),
      Yields (fun _ => True) (defaulted default decode) :=
    fun _ _ => yields_defaulted trivial fun _ _ _ _ => trivial
  have hoptional : ∀ {α : Type} (decode : Json → Option α),
      Yields (fun a? => ∀ a ∈ a?, True) (optional decode) :=
    fun _ => yields_optional fun _ _ _ _ => trivial
  refine yields_record ?_ hj h
  iterate 4 refine (hdefaulted _ _).skip fun _ => ?_
  refine hbox.bind fun box? hplaced => ?_
  iterate 9 refine (hoptional _).skip fun _ => ?_
  iterate 3 refine (hdefaulted _ _).skip fun _ => ?_
  iterate 4 refine (hoptional _).skip fun _ => ?_
  exact .pure (Layer.placed_of_box hplaced)

namespace Node

theorem layer_ofJson {j : Json} {n : Node} (h : ofJson? j = some n) :
    Layer.ofJson? j = some n.layer := by
  unfold ofJson? at h
  split at h
  · split at h
    · rename_i hlayer _
      rw [← Option.some.inj h]
      exact hlayer
    · cases h
  · split at h
    · rename_i hlayer _
      rw [← Option.some.inj h]
      exact hlayer
    · cases h
  · cases h

theorem allPlaced_ofItems {items : List Json} (hitems : ∀ j ∈ items, j.Numeric) {ns : List Node}
    (h : ofItems? items = some ns) : AllPlaced ns := by
  induction items generalizing ns with
  | nil =>
    rw [ofItems?] at h
    rw [← Option.some.inj h]
    exact List.forall_mem_nil _
  | cons j items ih =>
    obtain ⟨hj, hrest⟩ := List.forall_mem_cons.mp hitems
    rw [ofItems?] at h
    split at h
    · rename_i n nodes hn hnodes
      rw [← Option.some.inj h]
      exact List.forall_mem_cons.mpr ⟨Layer.placed_ofJson hj (layer_ofJson hn), ih hrest hnodes⟩
    · cases h

theorem allPlaced_ofJsonList {j : Json} (hj : j.Numeric) {ns : List Node}
    (h : ofJsonList? j = some ns) : AllPlaced ns := by
  cases hj with
  | array hitems =>
    rw [ofJsonList?] at h
    exact allPlaced_ofItems hitems h
  | null | bool _ | integer _ | float _ | string _ | object _ | void =>
    rw [ofJsonList?] at h <;> cases h

theorem allPlaced_childrenOfFields {fields : List (String × Json)}
    (hfields : ∀ field ∈ fields, field.2.Numeric) {ns : List Node}
    (h : childrenOfFields? fields = some ns) : AllPlaced ns := by
  induction fields with
  | nil =>
    rw [childrenOfFields?] at h
    rw [← Option.some.inj h]
    exact List.forall_mem_nil _
  | cons field fields ih =>
    obtain ⟨hfield, hrest⟩ := List.forall_mem_cons.mp hfields
    rw [childrenOfFields?] at h
    split at h
    · exact allPlaced_ofJsonList hfield h
    · exact ih hrest h

theorem allPlaced_childrenOfItems {items : List Json} (hitems : ∀ j ∈ items, j.Numeric)
    {place : Nat} {ns : List Node} (h : childrenOfItems? place items = some ns) :
    AllPlaced ns := by
  induction items generalizing place with
  | nil =>
    rw [childrenOfItems?] at h
    rw [← Option.some.inj h]
    exact List.forall_mem_nil _
  | cons j items ih =>
    obtain ⟨hj, hrest⟩ := List.forall_mem_cons.mp hitems
    cases place with
    | zero =>
      rw [childrenOfItems?] at h
      exact allPlaced_ofJsonList hj h
    | succ place =>
      rw [childrenOfItems?] at h
      exact ih hrest h

theorem allPlaced_ofJson {j : Json} (hj : j.Numeric) {n : Node} (h : ofJson? j = some n) :
    AllPlaced n.children := by
  unfold ofJson? at h
  split at h
  · split at h
    · rename_i hchildren
      rw [← Option.some.inj h]
      cases hj with
      | object hfields => exact allPlaced_childrenOfFields hfields hchildren
    · cases h
  · split at h
    · rename_i hchildren
      rw [← Option.some.inj h]
      cases hj with
      | array hitems => exact allPlaced_childrenOfItems hitems hchildren
    · cases h
  · cases h

end Node

theorem NodesAnswer.allPlaced_ofJson {j : Json} (hj : j.Numeric) {answer : NodesAnswer}
    (h : NodesAnswer.ofJson? j = some answer) :
    ∀ entry ∈ answer.nodes, ∀ n ∈ entry.2, Node.AllPlaced n.children := by
  have hentry : ∀ j, j.Numeric → ∀ n ∈ nodeOfEntry? j, Node.AllPlaced n.children := by
    intro j hj n hn
    refine yields_record (P := fun n : Node => Node.AllPlaced n.children) ?_ hj hn
    refine yields_required fun j hj n hn => ?_
    exact Node.allPlaced_ofJson hj hn
  have hname : Yields (fun _ => True) (defaulted none (nullable string?)) :=
    yields_defaulted trivial fun _ _ _ _ => trivial
  refine yields_record (P := fun answer : NodesAnswer =>
    ∀ entry ∈ answer.nodes, ∀ n ∈ entry.2, Node.AllPlaced n.children) ?_ hj h
  refine hname.skip fun _ => ?_
  have hnodes : Yields (fun nodes : List (String × Option Node) =>
      ∀ entry ∈ nodes, ∀ n ∈ entry.2, Node.AllPlaced n.children)
      (defaulted [] (entries? (nullable nodeOfEntry?))) := by
    refine yields_defaulted (List.forall_mem_nil _) fun j hj nodes hnodes => ?_
    exact forall_mem_entries (fun j hj => forall_mem_nullable hentry hj) hj hnodes
  exact hnodes.bind fun nodes hplaced => .pure hplaced

theorem mem_of_valueOf {α : Type} {key : String} {entries : List (String × α)} {a : α}
    (h : valueOf? key entries = some a) : (key, a) ∈ entries := by
  induction entries with
  | nil => cases h
  | cons entry entries ih =>
    rw [valueOf?] at h
    split at h
    · rename_i hkey
      rw [← Option.some.inj h, ← hkey]
      exact List.mem_cons_self
    · exact List.mem_cons_of_mem _ (ih h)

namespace Client

/-- What a client is answered was read from a text. -/
theorem exists_read_of_ask {α : Type} {c : Client} {web : Web} {address : String}
    {ofJson? : Json → Option α} {a : α} (h : (c.ask web address ofJson?).1 = .ok a) :
    ∃ text j, Json.read? text = some j ∧ ofJson? j = some a := by
  unfold ask at h
  split at h
  · cases h
  · rename_i response _ _
    simp only [decode] at h
    split at h
    · cases h
    · split at h
      · cases h
      · split at h
        · rename_i hread
          obtain ⟨j, hj, ha⟩ := Option.bind_eq_some_iff.mp hread
          rw [← Except.ok.inj h]
          exact ⟨response.content, j, hj, ha⟩
        · cases h

theorem mem_of_nodeOf {answer : NodesAnswer} {id : String} {n : Node}
    (h : nodeOf answer id = .ok n) : (id, some n) ∈ answer.nodes := by
  unfold nodeOf at h
  split at h
  · rename_i hvalue
    rw [← Except.ok.inj h]
    exact mem_of_valueOf hvalue
  · cases h

/-- In every document of a client the nodes that are put in reading order have places. -/
theorem allPlaced_document {c : Client} {web : Web} {fileKey id : String} {root : Node}
    (h : (c.source web).document fileKey id = .ok root) : Node.AllPlaced root.children := by
  have hdocument : (c.document web fileKey id).1 =
      (c.nodes web fileKey [id]).1.bind (nodeOf · id) := by rw [document]
  simp only [source, hdocument] at h
  cases hanswer : (c.nodes web fileKey [id]).1 with
  | error e =>
    rw [hanswer] at h
    cases h
  | ok answer =>
    rw [hanswer, Except.bind] at h
    cases hnode : nodeOf answer id with
    | error e =>
      rw [hnode] at h
      cases h
    | ok n =>
      rw [hnode] at h
      obtain ⟨_, j, hread, hdecoded⟩ := exists_read_of_ask hanswer
      have hplaced := NodesAnswer.allPlaced_ofJson (Json.numeric_read hread) hdecoded
      rw [← Except.ok.inj h]
      exact hplaced (id, some n) (mem_of_nodeOf hnode) n rfl

end Client

end DesignComponents
