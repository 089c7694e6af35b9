import DesignComponents.Proofs.Conversion.Visibility

/-!
# The rows of a table

A table has a row of heads and a row of cells. Both are read from the same columns, but a column
that has nothing for a row takes no place in it. So a cell stands under the head of its own column
just as long as every column before has as much to show in the one row as in the other.
-/

namespace DesignComponents

section Lists

variable {α β : Type} {f g : α → Option β}

/-- What `f` finds in a list, each with the place where it is found. -/
def placed (f : α → Option β) (xs : List α) (start : Nat) : List (Nat × β) :=
  (xs.zipIdx start).filterMap fun entry => (f entry.1).map (entry.2, ·)

theorem placed_cons (f : α → Option β) (a : α) (xs : List α) (start : Nat) :
    placed f (a :: xs) start = ((f a).map (start, ·)).toList ++ placed f xs (start + 1) := by
  rw [placed, List.zipIdx_cons, List.filterMap_cons]
  cases f a with
  | none => rfl
  | some b => rfl

theorem map_snd_placed (f : α → Option β) (xs : List α) (start : Nat) :
    (placed f xs start).map (·.2) = xs.filterMap f := by
  induction xs generalizing start with
  | nil => rfl
  | cons a xs ih =>
    rw [placed_cons, List.map_append, ih, List.filterMap_cons]
    cases f a with
    | none => rfl
    | some b => rfl

/-- Number `k` of what is found is found at the place up to which there are `k` things to find. -/
theorem getElem?_placed_iff {xs : List α} {start k place : Nat} {b : β} :
    (placed f xs start)[k]? = some (place, b) ↔
      ∃ i, place = start + i ∧ xs[i]?.bind f = some b ∧ ((xs.take i).filterMap f).length = k := by
  induction xs generalizing start k with
  | nil =>
    constructor
    · intro h
      cases h
    · rintro ⟨i, _, h, _⟩
      cases h
  | cons a xs ih =>
    have hlater : ∀ {k'}, (placed f xs (start + 1))[k']? = some (place, b) ↔
        ∃ i, place = start + (i + 1) ∧ xs[i]?.bind f = some b ∧
          ((xs.take i).filterMap f).length = k' := by
      intro k'
      rw [ih]
      simp only [Nat.add_assoc, Nat.add_comm 1]
    rw [placed_cons]
    cases hfirst : f a with
    | none =>
      refine hlater.trans ⟨?_, ?_⟩
      · rintro ⟨i, hplace, hfound, hlength⟩
        refine ⟨i + 1, hplace, hfound, ?_⟩
        rw [List.take_succ_cons, List.filterMap_cons_none hfirst, hlength]
      · rintro ⟨_ | i, hplace, hfound, hlength⟩
        · exact absurd (hfirst.symm.trans hfound) (Option.some_ne_none b).symm
        · rw [List.take_succ_cons, List.filterMap_cons_none hfirst] at hlength
          exact ⟨i, hplace, hfound, hlength⟩
    | some c =>
      cases k with
      | zero =>
        constructor
        · intro h
          have hhead : (start, c) = (place, b) := Option.some.inj h
          rw [Prod.mk.injEq] at hhead
          exact ⟨0, hhead.1.symm, hhead.2 ▸ hfirst, rfl⟩
        · rintro ⟨_ | i, hplace, hfound, hlength⟩
          · have hsame : c = b := Option.some.inj (hfirst.symm.trans hfound)
            rw [hplace, ← hsame]
            rfl
          · rw [List.take_succ_cons, List.filterMap_cons_some hfirst] at hlength
            exact absurd hlength (Nat.succ_ne_zero _)
      | succ k =>
        refine hlater.trans ⟨?_, ?_⟩
        · rintro ⟨i, hplace, hfound, hlength⟩
          refine ⟨i + 1, hplace, hfound, ?_⟩
          rw [List.take_succ_cons, List.filterMap_cons_some hfirst, List.length_cons, hlength]
        · rintro ⟨_ | i, hplace, hfound, hlength⟩
          · exact absurd hlength (Nat.succ_ne_zero k).symm
          · rw [List.take_succ_cons, List.filterMap_cons_some hfirst] at hlength
            exact ⟨i, hplace, hfound, Nat.succ.inj hlength⟩

/-- Where `g` finds something only if `f` does, both find equally many things only if they find
them in the same places. -/
theorem length_filterMap_eq_iff {xs : List α} (h : ∀ a ∈ xs, f a = none → g a = none) :
    (xs.filterMap f).length = (xs.filterMap g).length ↔ ∀ a ∈ xs, g a = none → f a = none := by
  induction xs with
  | nil => exact ⟨fun _ => List.forall_mem_nil _, fun _ => rfl⟩
  | cons a xs ih =>
    obtain ⟨ha, hxs⟩ := List.forall_mem_cons.mp h
    rw [List.forall_mem_cons, ← ih hxs]
    cases hf : f a with
    | none =>
      rw [List.filterMap_cons_none hf, List.filterMap_cons_none (ha hf)]
      exact (and_iff_right fun _ => rfl).symm
    | some b =>
      rw [List.filterMap_cons_some hf, List.length_cons]
      cases hg : g a with
      | none =>
        -- What `g` lacks here it cannot make up for later.
        have hle := length_filterMap_le hxs
        rw [List.filterMap_cons_none hg]
        constructor
        · intro heq
          omega
        · rintro ⟨hnone, _⟩
          cases hnone rfl
      | some b' =>
        rw [List.filterMap_cons_some hg, List.length_cons, Nat.add_right_cancel_iff]
        exact (and_iff_right fun hnone => nomatch hnone).symm

end Lists

namespace Node

variable (reference? address? : Layer → Option String)

/-- What a column shows in row `i`. -/
def cellOf (i : Nat) (column : Node) : Option Element :=
  if column.visible then column.children[i]?.bind (shown reference? address?) else none

/-- Row `i` of a table, each element with the place of the column that it comes from. -/
def placedRow (i : Nat) (columns : List Node) : List (Nat × Element) :=
  placed (cellOf reference? address? i) columns 0

/-- The nodes that a table reads all show something. -/
def Filled (columns : List Node) : Prop :=
  ∀ column ∈ columns, column.visible = true →
    ∀ n ∈ column.children.take 2, n.shown reference? address? ≠ none

theorem map_snd_placedRow (i : Nat) (columns : List Node) :
    (placedRow reference? address? i columns).map (·.2) = rowOf reference? address? i columns := by
  rw [placedRow, map_snd_placed, rowOf, acrossColumns, List.filterMap_filterMap,
    List.filterMap_filter]
  rfl

variable {reference? address?}

theorem cellOf_eq_none_iff {columns : List Node} (h : Filled reference? address? columns) {i : Nat}
    (hi : i < 2) {column : Node} (hcolumn : column ∈ columns) :
    column.cellOf reference? address? i = none ↔
      (column.visible = true → column.children.length ≤ i) := by
  rw [cellOf]
  cases hvisible : column.visible with
  | false => exact iff_of_true (if_neg Bool.false_ne_true) fun hfalse => nomatch hfalse
  | true =>
    rw [if_pos rfl, forall_prop_of_true rfl, ← List.getElem?_eq_none_iff]
    cases hn : column.children[i]? with
    | none => exact iff_of_true rfl rfl
    | some n =>
      have hread : n ∈ column.children.take 2 := by
        refine List.mem_of_getElem? (i := i) ?_
        rw [List.getElem?_take_of_lt hi, hn]
      exact iff_of_false (h column hcolumn hvisible n hread) (Option.some_ne_none n)

/-- A cell stands under the head of its own column if and only if no column before has a head
alone. -/
theorem under_own_head_iff {columns : List Node} (h : Filled reference? address? columns)
    {k place : Nat} {cell : Element}
    (hcell : (placedRow reference? address? 1 columns)[k]? = some (place, cell)) :
    (placedRow reference? address? 0 columns)[k]?.map (·.1) = some place ↔
      ∀ column ∈ columns.take place, column.visible = true → column.children.length ≠ 1 := by
  obtain ⟨i, hplace, hshown, hcells⟩ := getElem?_placed_iff.mp hcell
  rw [Nat.zero_add] at hplace
  subst hplace
  obtain ⟨own, hown, hcell⟩ := Option.bind_eq_some_iff.mp hshown
  have hmem : own ∈ columns := List.mem_of_getElem? hown
  have hsome : own.cellOf reference? address? 1 ≠ none := hcell ▸ Option.some_ne_none cell
  rw [Ne, cellOf_eq_none_iff h (by decide) hmem] at hsome
  -- A column with a cell has a head as well.
  have hhead : own.cellOf reference? address? 0 ≠ none := by
    rw [Ne, cellOf_eq_none_iff h (by decide) hmem]
    intro hempty
    exact hsome fun hvisible => Nat.le_trans (hempty hvisible) (Nat.zero_le 1)
  obtain ⟨head, hhead⟩ := Option.ne_none_iff_exists'.mp hhead
  have hbefore : (placedRow reference? address? 0 columns)[k]?.map (·.1) = some place ↔
      ((columns.take place).filterMap (cellOf reference? address? 0)).length = k := by
    rw [Option.map_eq_some_iff]
    constructor
    · rintro ⟨⟨_, e⟩, hfound, rfl⟩
      obtain ⟨i, hi, _, hlength⟩ := getElem?_placed_iff.mp hfound
      rw [Nat.zero_add] at hi
      exact hi ▸ hlength
    · intro hlength
      refine ⟨(place, head), ?_, rfl⟩
      refine getElem?_placed_iff.mpr ⟨place, (Nat.zero_add place).symm, ?_, hlength⟩
      rw [hown]
      exact hhead
  have hcolumns : ∀ column ∈ columns.take place, column ∈ columns :=
    fun _ hcolumn => List.mem_of_mem_take hcolumn
  rw [hbefore, ← hcells, length_filterMap_eq_iff]
  · refine forall_congr' fun column => forall_congr' fun hcolumn => ?_
    rw [cellOf_eq_none_iff h (by decide) (hcolumns column hcolumn),
      cellOf_eq_none_iff h (by decide) (hcolumns column hcolumn)]
    constructor
    · intro hnone hvisible hlone
      have := hnone (fun _ => Nat.le_of_eq hlone) hvisible
      omega
    · intro hlone hshort hvisible
      have := hlone hvisible
      have := hshort hvisible
      omega
  · intro column hcolumn hnone
    rw [cellOf_eq_none_iff h (by decide) (hcolumns column hcolumn)] at hnone ⊢
    exact fun hvisible => Nat.le_trans (hnone hvisible) (Nat.zero_le 1)

end Node

namespace Walk

variable (w : Walk)

theorem finish_start_eq_shown (n : Node) (l : Ledger) :
    (w.start n l).1.finish =
      n.shown (Ledger.reference? w.reuse (w.start n l).2.answers) w.addressOf := by
  have hstart := w.finish_start n l
  have hledger : (w.start n l).2 = (w.render n l).2 := congrArg Prod.snd hstart
  rw [hledger, w.shown_of_render]
  exact congrArg Prod.fst hstart

/-- A table is written with a row of heads and a row of cells, which are read from its columns in
order. If all that is read shows something, a cell stands under the head of its own column if and
only if no visible column before that one has a head alone. -/
theorem cell_stands_under_own_head_iff (f : Framework) (layer : Layer) (columns : List Node)
    (l : Ledger) :
    let reference? := Ledger.reference? w.reuse (w.start (.mk layer columns) l).2.answers
    let heads := Node.placedRow reference? w.addressOf 0 columns
    let cells := Node.placedRow reference? w.addressOf 1 columns
    layer.roleWith reference? = .table → Node.Filled reference? w.addressOf columns →
      Markup.read f (((w.start (.mk layer columns) l).1.finish.map (·.markup f)).getD "") =
          some (some (.table (heads.map (·.2)) (cells.map (·.2)))) ∧
        ∀ (k place : Nat) (cell : Element), cells[k]? = some (place, cell) →
          (heads[k]?.map (·.1) = some place ↔
            ∀ column ∈ columns.take place, column.visible = true → column.children.length ≠ 1) := by
  intro reference? heads cells htable hfilled
  have hlegible := w.legible_render (.mk layer columns) l
  have hshown := w.finish_start_eq_shown (.mk layer columns) l
  have hrender : (w.start (.mk layer columns) l).1.finish = (w.render (.mk layer columns) l).1 :=
    congrArg Prod.fst (w.finish_start (.mk layer columns) l)
  refine ⟨?_, fun k place cell hcell => Node.under_own_head_iff hfilled hcell⟩
  rw [← hrender] at hlegible
  rw [Markup.read_markup f hlegible, hshown, Node.shown_mk]
  simp only [reference?, heads, cells] at htable ⊢
  rw [htable, Node.map_snd_placedRow, Node.map_snd_placedRow]
  rfl

end Walk

/-! ## Tables with a gap -/

namespace Conversion

def plainWalk : Walk := ⟨"FILE", none, fun _ => ⟨0, .ok none⟩⟩

def captionLayer (text : String) : Layer :=
  { bareLayer "3:1" "caption" .text true with characters := some text }

def captionNode (text : String) : Node := .mk (captionLayer text) []

def columnNode (visible : Bool) (texts : List String) : Node :=
  .mk (bareLayer "2:1" "column" .frame visible) (texts.map captionNode)

def tableLayer : Layer := bareLayer "1:1" "Table" .frame true

/-- What the plain walk finds to stand for layers, which is nothing. -/
def plainReference? (columns : List Node) : Layer → Option String :=
  Ledger.reference? plainWalk.reuse (plainWalk.start (.mk tableLayer columns) .empty).2.answers

theorem plainReference?_eq (columns : List Node) : plainReference? columns = fun _ => none := rfl

theorem role_tableLayer (columns : List Node) :
    tableLayer.roleWith (plainReference? columns) = .table := by
  rw [plainReference?_eq]
  decide

theorem shown_captionNode (columns : List Node) (text : String) :
    (captionNode text).shown (plainReference? columns) plainWalk.addressOf =
      some (.text (Walk.textOf (captionLayer text)) (captionLayer text).classes) := by
  have hrole : (captionLayer text).roleWith (plainReference? columns) = .text := by
    have hsame : (captionLayer text).roleWith (fun _ => none) =
        (captionLayer "").roleWith fun _ => none := rfl
    rw [plainReference?_eq, hsame]
    decide
  rw [captionNode, Node.shown_mk, hrole]

theorem cellOf_columnNode (columns : List Node) (i : Nat) (visible : Bool) (texts : List String) :
    (columnNode visible texts).cellOf (plainReference? columns) plainWalk.addressOf i =
      if visible then texts[i]?.map fun text =>
        .text (Walk.textOf (captionLayer text)) (captionLayer text).classes
      else none := by
  rw [Node.cellOf, columnNode, Node.children_mk, List.getElem?_map]
  change (if visible = true then _ else none) = _
  cases texts[i]? with
  | none => rfl
  | some text => rw [Option.map_some, Option.bind_some, shown_captionNode, Option.map_some]

theorem filled_columnNodes (columns : List Node) (shapes : List (Bool × List String)) :
    Node.Filled (plainReference? columns) plainWalk.addressOf
      (shapes.map fun shape => columnNode shape.1 shape.2) := by
  intro column hcolumn _ n hn
  obtain ⟨⟨visible, texts⟩, _, rfl⟩ := List.mem_map.mp hcolumn
  obtain ⟨text, _, rfl⟩ := List.mem_map.mp (List.mem_of_mem_take hn)
  rw [shown_captionNode]
  exact Option.some_ne_none _

/-- The second column of this table has a head and a cell. Its cell stands under the head of the
first column, which has no cell. -/
def tableWithGap : List Node := [columnNode true ["Name"], columnNode true ["Role", "Engineer"]]

theorem cell_under_other_head :
    tableLayer.roleWith (plainReference? tableWithGap) = .table ∧
      Node.Filled (plainReference? tableWithGap) plainWalk.addressOf tableWithGap ∧
      (Node.placedRow (plainReference? tableWithGap) plainWalk.addressOf 0
        tableWithGap)[0]?.map (·.1) = some 0 ∧
      (Node.placedRow (plainReference? tableWithGap) plainWalk.addressOf 1
        tableWithGap)[0]?.map (·.1) = some 1 ∧
      htmlOf (.mk tableLayer tableWithGap) =
        "<div class=\"overflow-x-scroll\"><table>" ++
          "<thead><tr class=\"flex\"><p class=\"\">Name</p><p class=\"\">Role</p></tr></thead>" ++
          "<tbody><tr class=\"flex\"><p class=\"\">Engineer</p></tr></tbody></table></div>" := by
  have hfilled := filled_columnNodes tableWithGap [(true, ["Name"]), (true, ["Role", "Engineer"])]
  have horder : (Node.mk tableLayer tableWithGap).inReadingOrder = .mk tableLayer tableWithGap := by
    rw [tableWithGap, Node.inReadingOrder, List.mergeSort_of_pairwise]
    decide +kernel
  refine ⟨role_tableLayer _, hfilled, ?_, ?_, ?_⟩
  · simp [Node.placedRow, placed, tableWithGap, cellOf_columnNode]
  · simp [Node.placedRow, placed, tableWithGap, cellOf_columnNode]
  · simp only [htmlOf, ofRoot, horder]
    decide +kernel

/-- A hidden column is passed over, and a column that has a head alone moves what comes behind
it. -/
theorem cells_around_lone_head :
    let columns := [columnNode true ["Name", "Ada"], columnNode false ["Id"],
      columnNode true ["Since", "1843"], columnNode true ["Role"], columnNode true ["Born", "1815"]]
    let heads := Node.placedRow (plainReference? columns) plainWalk.addressOf 0 columns
    let cells := Node.placedRow (plainReference? columns) plainWalk.addressOf 1 columns
    tableLayer.roleWith (plainReference? columns) = .table ∧
      Node.Filled (plainReference? columns) plainWalk.addressOf columns ∧
      cells.map (·.1) = [0, 2, 4] ∧
      heads[1]?.map (·.1) = some 2 ∧ heads[2]?.map (·.1) ≠ some 4 := by
  intro columns heads cells
  have hrole := role_tableLayer columns
  have hfilled : Node.Filled (plainReference? columns) plainWalk.addressOf columns :=
    filled_columnNodes columns [(true, ["Name", "Ada"]), (false, ["Id"]),
      (true, ["Since", "1843"]), (true, ["Role"]), (true, ["Born", "1815"])]
  have hplaces : cells.map (·.1) = [0, 2, 4] := by
    simp [cells, Node.placedRow, placed, columns, cellOf_columnNode]
  have hcells : ∀ k place : Nat,
      [0, 2, 4][k]? = some place → ∃ cell, cells[k]? = some (place, cell) := by
    intro k place h
    rw [← hplaces, List.getElem?_map] at h
    obtain ⟨⟨_, cell⟩, hcell, rfl⟩ := Option.map_eq_some_iff.mp h
    exact ⟨cell, hcell⟩
  have hown := (plainWalk.cell_stands_under_own_head_iff .html tableLayer columns .empty hrole
    hfilled).2
  obtain ⟨second, hsecond⟩ := hcells 1 2 rfl
  obtain ⟨third, hthird⟩ := hcells 2 4 rfl
  refine ⟨hrole, hfilled, hplaces, (hown 1 2 second hsecond).mpr ?_,
    (not_congr (hown 2 4 third hthird)).mpr ?_⟩
  · simp [columns, columnNode, Node.visible, bareLayer]
  · simp [columns, columnNode, Node.visible, bareLayer]

end Conversion

end DesignComponents
