import DesignComponents.Design.Node

/-!
# The columns of a table

A table is read by columns: the first nodes of its visible columns are its heads, the second
ones its cells. Induction over a design hands out both beside the children, so that a walk over
a table is reasoned about like one over a container.
-/

namespace DesignComponents.Node

/-- The node at place `i` of every visible column. -/
def acrossColumns (i : Nat) (columns : List Node) : List Node :=
  (columns.filter (·.visible)).filterMap fun column => column.children[i]?

def heads (columns : List Node) : List Node := acrossColumns 0 columns

def cells (columns : List Node) : List Node := acrossColumns 1 columns

theorem acrossColumns_of_visible (i : Nat) {column : Node} (h : column.visible = true)
    (columns : List Node) :
    acrossColumns i (column :: columns) = column.children[i]?.toList ++ acrossColumns i columns := by
  simp only [acrossColumns, List.filter_cons_of_pos h, List.filterMap_cons]
  cases column.children[i]? with
  | none => rfl
  | some n => rfl

theorem acrossColumns_of_hidden (i : Nat) {column : Node} (h : column.visible = false)
    (columns : List Node) : acrossColumns i (column :: columns) = acrossColumns i columns := by
  rw [acrossColumns, List.filter_cons_of_neg (by simp [h])]
  rfl

theorem exists_of_mem_acrossColumns {i : Nat} {columns : List Node} {n : Node}
    (h : n ∈ acrossColumns i columns) : ∃ column ∈ columns, n ∈ column.children := by
  obtain ⟨column, hcolumn, hn⟩ := List.mem_filterMap.mp h
  exact ⟨column, (List.mem_filter.mp hcolumn).1, List.mem_of_getElem? hn⟩

/-- A table's nodes are no larger than its columns. -/
theorem sizeOf_acrossColumns_le (i : Nat) (columns : List Node) :
    sizeOf (acrossColumns i columns) ≤ sizeOf columns := by
  induction columns with
  | nil => exact Nat.le_refl _
  | cons column columns ih =>
    cases hvisible : column.visible with
    | false =>
      rw [acrossColumns_of_hidden i hvisible, List.cons.sizeOf_spec]
      omega
    | true =>
      rw [acrossColumns_of_visible i hvisible, List.cons.sizeOf_spec]
      cases hn : column.children[i]? with
      | none =>
        change sizeOf (acrossColumns i columns) ≤ _
        omega
      | some n =>
        have hlt : sizeOf n < sizeOf column.children :=
          List.sizeOf_lt_of_mem (List.mem_of_getElem? hn)
        have hle : sizeOf column.children < sizeOf column := by
          cases column
          simp only [children_mk, mk.sizeOf_spec]
          omega
        change sizeOf (n :: acrossColumns i columns) ≤ _
        rw [List.cons.sizeOf_spec]
        omega

/-- Induction over a design. A table reaches past its columns, so the hypotheses cover the nodes
of the columns as well as the columns. -/
theorem induction {P : Node → Prop}
    (step : ∀ layer children, (∀ c ∈ children, P c) → (∀ c ∈ heads children, P c) →
      (∀ c ∈ cells children, P c) → P (mk layer children))
    (n : Node) : P n := by
  have deep : P n ∧ ∀ c ∈ n.children, P c := by
    refine Node.rec (motive_1 := fun n => P n ∧ ∀ c ∈ n.children, P c)
      (motive_2 := fun ns => ∀ n ∈ ns, P n ∧ ∀ c ∈ n.children, P c) ?_ ?_ ?_ n
    · intro layer children ih
      have hacross : ∀ i, ∀ c ∈ acrossColumns i children, P c := by
        intro i c hc
        obtain ⟨column, hcolumn, hin⟩ := exists_of_mem_acrossColumns hc
        exact (ih column hcolumn).2 c hin
      exact ⟨step layer children (fun c hc => (ih c hc).1) (hacross 0) (hacross 1),
        fun c hc => (ih c hc).1⟩
    · exact List.forall_mem_nil _
    · intro n ns hn hns
      exact List.forall_mem_cons.mpr ⟨hn, hns⟩
  exact deep.1

end DesignComponents.Node
