import Mathlib.Data.List.Nodup
import DesignComponents.Proofs.Design.Columns

/-!
# Places in a design

The numbers of children lead from a node to a place below it, and what lies inside the node there
can be replaced. All other nodes stay as they are, also in the rows of heads and cells, and a list
that is sorted has the changed element where it had the old one.
-/

namespace DesignComponents

/-! ## Changing one element of a list -/

theorem exists_split_of_getElem? {α : Type} {xs : List α} {i : Nat} {x : α} (h : xs[i]? = some x) :
    ∃ before after, xs = before ++ x :: after ∧ ∀ f, xs.modify i f = before ++ f x :: after := by
  obtain ⟨hi, rfl⟩ := List.getElem?_eq_some_iff.mp h
  refine ⟨xs.take i, xs.drop (i + 1), ?_, fun f => List.modify_eq_take_cons_drop hi⟩
  rw [← List.drop_eq_getElem_cons hi, List.take_append_drop]

/-- An element that carries its old place, changed if it comes from the given one. -/
def changedFrom {α : Type} (i : Nat) (f : α → α) (p : α × Nat) : α :=
  if i = p.2 then f p.1 else p.1

theorem map_changedFrom_zipIdx {α : Type} (xs : List α) (i : Nat) (f : α → α) :
    xs.zipIdx.map (changedFrom i f) = xs.modify i f := by
  apply List.ext_getElem?
  intro m
  rw [List.getElem?_modify, List.getElem?_map, List.getElem?_zipIdx]
  cases xs[m]? with
  | none => rfl
  | some a => simp [changedFrom]

theorem map_changedFrom_of_nodup {α : Type} {ps : List (α × Nat)} {i k : Nat} {x : α}
    (hplaces : (ps.map Prod.snd).Nodup) (hk : ps[k]? = some (x, i)) (f : α → α) :
    ps.map (changedFrom i f) = (ps.map Prod.fst).modify k f := by
  have hlt : k < (ps.map Prod.snd).length := by
    rw [List.length_map]
    exact (List.getElem?_eq_some_iff.mp hk).1
  apply List.ext_getElem?
  intro m
  rw [List.getElem?_modify, List.getElem?_map, List.getElem?_map]
  cases hm : ps[m]? with
  | none => rfl
  | some p =>
    have hplace : i = p.2 ↔ k = m := by
      rw [← List.getElem?_inj hlt hplaces, List.getElem?_map, List.getElem?_map, hk, hm]
      exact Option.some_inj.symm
    simp [changedFrom, hplace]

theorem mergeSort_map_changedFrom {α : Type} {le : α → α → Bool} {f : α → α}
    (hf : ∀ a b, le (f a) b = le a b ∧ le a (f b) = le a b) (i : Nat) (ps : List (α × Nat)) :
    (ps.map (changedFrom i f)).mergeSort le =
      (ps.mergeSort fun p q => le p.1 q.1).map (changedFrom i f) := by
  refine (List.map_mergeSort ?_).symm
  intro p _ q _
  rw [changedFrom, changedFrom]
  split <;> split <;> simp only [(hf _ _).1, (hf _ _).2]

/-- A sort finds a changed element where it found the old one, if the order does not see the
change. -/
theorem exists_modify_mergeSort {α : Type} (le : α → α → Bool) {xs : List α} {i : Nat} {x : α}
    (h : xs[i]? = some x) :
    ∃ k, (xs.mergeSort le)[k]? = some x ∧ ∀ f : α → α,
      (∀ a b, le (f a) b = le a b ∧ le a (f b) = le a b) →
        (xs.modify i f).mergeSort le = (xs.mergeSort le).modify k f := by
  -- The elements are sorted together with their old places, of which no two are the same.
  let sorted := xs.zipIdx.mergeSort fun p q => le p.1 q.1
  have hperm : sorted.Perm xs.zipIdx := List.mergeSort_perm _ _
  have hfirst : sorted.map Prod.fst = xs.mergeSort le := by
    have hmap : sorted.map Prod.fst = (xs.zipIdx.map Prod.fst).mergeSort le :=
      List.map_mergeSort fun _ _ _ _ => rfl
    rw [hmap, List.zipIdx_map_fst]
  have hplaces : (sorted.map Prod.snd).Nodup := by
    rw [(hperm.map Prod.snd).nodup_iff, List.zipIdx_map_snd]
    exact List.nodup_range'
  have hmem : (x, i) ∈ sorted := hperm.mem_iff.mpr (List.mem_zipIdx_iff_getElem?.mpr h)
  obtain ⟨k, hk⟩ := List.mem_iff_getElem?.mp hmem
  refine ⟨k, ?_, fun f hf => ?_⟩
  · rw [← hfirst, List.getElem?_map, hk]
    rfl
  · calc (xs.modify i f).mergeSort le
      _ = (xs.zipIdx.map (changedFrom i f)).mergeSort le := by rw [map_changedFrom_zipIdx]
      _ = sorted.map (changedFrom i f) := mergeSort_map_changedFrom hf i _
      _ = (sorted.map Prod.fst).modify k f := map_changedFrom_of_nodup hplaces hk f
      _ = (xs.mergeSort le).modify k f := by rw [hfirst]

namespace Node

/-! ## Replacing what lies inside a node -/

/-- The node with other nodes inside the one to which the numbers of children lead. -/
def withChildrenAt (children' : List Node) : List Nat → Node → Node
  | [], mk layer _ => mk layer children'
  | i :: path, mk layer children => mk layer (children.modify i (withChildrenAt children' path))

@[simp] theorem layer_withChildrenAt (children' : List Node) (path : List Nat) (n : Node) :
    (n.withChildrenAt children' path).layer = n.layer := by
  obtain ⟨layer, children⟩ := n
  cases path with
  | nil => rfl
  | cons i path => rfl

theorem children_withChildrenAt_cons (children' : List Node) (i : Nat) (path : List Nat)
    (n : Node) :
    (n.withChildrenAt children' (i :: path)).children =
      n.children.modify i (withChildrenAt children' path) := by
  cases n
  rfl

/-- The nodes inside a node as a conversion sees them: those of the root, to which no number
leads, are put in reading order. -/
def seenAt : (path : List Nat) → List Node → List Node
  | [], children => children.mergeSort readsBefore
  | _ :: _, children => children

theorem exists_modify_inReadingOrder (layer : Layer) {children : List Node} {i : Nat} {c : Node}
    (hc : children[i]? = some c) :
    ∃ k, (mk layer children).inReadingOrder.children[k]? = some c ∧
      ∀ (children' : List Node) (path : List Nat),
        ((mk layer children).withChildrenAt children' (i :: path)).inReadingOrder =
          (mk layer children).inReadingOrder.withChildrenAt children' (k :: path) := by
  obtain ⟨k, hk, hmodify⟩ := exists_modify_mergeSort readsBefore hc
  refine ⟨k, hk, fun children' path => congrArg (mk layer) (hmodify _ ?_)⟩
  intro a b
  rw [readsBefore, readsBefore, readsBefore, layer_withChildrenAt, layer_withChildrenAt]
  exact ⟨rfl, rfl⟩

/-! ## Rows of a table -/

theorem acrossColumns_append (j : Nat) (columns columns' : List Node) :
    acrossColumns j (columns ++ columns') =
      acrossColumns j columns ++ acrossColumns j columns' := by
  rw [acrossColumns, List.filter_append, List.filterMap_append]
  rfl

theorem mem_acrossColumns_iff {j : Nat} {columns : List Node} {c : Node} :
    c ∈ acrossColumns j columns ↔
      ∃ (i : Nat) (column : Node), columns[i]? = some column ∧ column.visible = true ∧
        column.children[j]? = some c := by
  rw [acrossColumns, List.mem_filterMap]
  constructor
  · rintro ⟨column, hcolumn, hc⟩
    obtain ⟨hmem, hvisible⟩ := List.mem_filter.mp hcolumn
    obtain ⟨i, hi⟩ := List.mem_iff_getElem?.mp hmem
    exact ⟨i, column, hi, hvisible, hc⟩
  · rintro ⟨i, column, hi, hvisible, hc⟩
    exact ⟨column, List.mem_filter.mpr ⟨List.mem_of_getElem? hi, hvisible⟩, hc⟩

/-- A change below one node of a column changes the row that the node is in, there and nowhere
else, and no other row. -/
theorem exists_split_acrossColumns {columns : List Node} {i j : Nat} {column c : Node}
    (hcolumn : columns[i]? = some column) (hvisible : column.visible = true)
    (hc : column.children[j]? = some c) (children' : List Node) (path : List Nat) :
    (∃ before after, acrossColumns j columns = before ++ c :: after ∧
        acrossColumns j (columns.modify i (withChildrenAt children' (j :: path))) =
          before ++ c.withChildrenAt children' path :: after) ∧
      ∀ k ≠ j, acrossColumns k (columns.modify i (withChildrenAt children' (j :: path))) =
        acrossColumns k columns := by
  obtain ⟨before, after, rfl, hmodify⟩ := exists_split_of_getElem? hcolumn
  have hvisible' : (column.withChildrenAt children' (j :: path)).visible = true := by
    rw [visible, layer_withChildrenAt]
    exact hvisible
  rw [hmodify]
  constructor
  · refine ⟨acrossColumns j before, acrossColumns j after, ?_, ?_⟩
    · rw [acrossColumns_append, acrossColumns_of_visible j hvisible, hc]
      rfl
    · rw [acrossColumns_append, acrossColumns_of_visible j hvisible',
        children_withChildrenAt_cons, List.getElem?_modify_eq, hc]
      rfl
  · intro k hk
    rw [acrossColumns_append, acrossColumns_append, acrossColumns_of_visible k hvisible,
      acrossColumns_of_visible k hvisible', children_withChildrenAt_cons,
      List.getElem?_modify_ne _ _ hk.symm]

end Node

end DesignComponents
