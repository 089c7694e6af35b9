import DesignComponents.Design.Node

/-!
# Reading order

Two places can be compared unless a coordinate is no number. Where they can, reading order is the
order of four integers, so that it is total and transitive, and putting nodes in reading order
goes together with leaving some of them out.
-/

namespace DesignComponents

namespace Binary

variable {f : BinaryFormat}

/-- Below, among or above the finite numbers. -/
def tier : Binary f → Int
  | infinite negative => if negative then -1 else 1
  | _ => 0

/-- The finite number in units; zero for the others. -/
def height : Binary f → Int
  | finite negative m e _ => units f negative m e
  | _ => 0

theorem compare?_eq {x y : Binary f} (hx : x.isNaN = false) (hy : y.isNaN = false) :
    compare? x y = some ((compare x.tier y.tier).then (compare x.height y.height)) := by
  cases x with
  | nan => exact absurd hx (by simp [isNaN])
  | infinite s =>
    cases y with
    | nan => exact absurd hy (by simp [isNaN])
    | infinite t => cases s <;> cases t <;> rfl
    | finite t n e h => cases s <;> rfl
  | finite s m d h =>
    cases y with
    | nan => exact absurd hy (by simp [isNaN])
    | infinite t => cases t <;> rfl
    | finite t n e h => rfl

end Binary

namespace Layer

/-- Both coordinates of the layer are numbers. -/
def Placed (l : Layer) : Prop := l.top.isNaN = false ∧ l.left.isNaN = false

instance (l : Layer) : Decidable l.Placed := by unfold Placed; infer_instance

/-- Reading order as an order of integers. -/
def placeOrder : Layer → Layer → Ordering :=
  compareLex (compareOn fun l => l.top.tier) <|
    compareLex (compareOn fun l => l.top.height) <|
      compareLex (compareOn fun l => l.left.tier) (compareOn fun l => l.left.height)

theorem readingOrder_eq {a b : Layer} (ha : a.Placed) (hb : b.Placed) :
    a.readingOrder b = placeOrder a b := by
  rw [readingOrder, compareNumbers, compareNumbers, Binary.compare?_eq ha.1 hb.1,
    Binary.compare?_eq ha.2 hb.2, Option.getD_some, Option.getD_some, Ordering.then_assoc]
  rfl

end Layer

namespace Node

/-- Whether `a` may stand before `b` by the integers of their places. -/
def placedBefore (a b : Node) : Bool := (Layer.placeOrder a.layer b.layer).isLE

instance : Std.TransCmp Layer.placeOrder := by unfold Layer.placeOrder; infer_instance

theorem placedBefore_trans (a b c : Node) (hab : a.placedBefore b) (hbc : b.placedBefore c) :
    a.placedBefore c := Std.TransCmp.isLE_trans hab hbc

theorem placedBefore_total (a b : Node) : a.placedBefore b || b.placedBefore a := by
  have hswap : Layer.placeOrder b.layer a.layer = (Layer.placeOrder a.layer b.layer).swap :=
    Std.OrientedCmp.eq_swap
  rw [placedBefore, placedBefore, hswap]
  cases Layer.placeOrder a.layer b.layer <;> rfl

theorem readsBefore_eq {a b : Node} (ha : a.layer.Placed) (hb : b.layer.Placed) :
    a.readsBefore b = a.placedBefore b := by
  rw [readsBefore, placedBefore, Layer.readingOrder_eq ha hb]
  cases Layer.placeOrder a.layer b.layer <;> rfl

/-- Every node of the list has a place. -/
def AllPlaced (ns : List Node) : Prop := ∀ n ∈ ns, n.layer.Placed

theorem mergeSort_eq_placed {ns : List Node} (h : AllPlaced ns) :
    ns.mergeSort readsBefore = ns.mergeSort placedBefore := by
  have hmap := List.map_mergeSort (f := fun n => n)
    fun a ha b hb => readsBefore_eq (h a ha) (h b hb)
  rwa [List.map_id', List.map_id'] at hmap

end Node

section Sorting

variable {α : Type} {le : α → α → Bool}

theorem eq_of_append_eq_append {q : α → Bool} {xs xs' ys ys' : List α}
    (h : xs ++ ys = xs' ++ ys') (hxs : ∀ a ∈ xs, q a = true) (hxs' : ∀ a ∈ xs', q a = true)
    (hys : ∀ a ∈ ys, q a = false) (hys' : ∀ a ∈ ys', q a = false) : xs = xs' ∧ ys = ys' := by
  have htake : ∀ {us vs : List α}, (∀ a ∈ us, q a = true) → (∀ a ∈ vs, q a = false) →
      (us ++ vs).takeWhile q = us := by
    intro us vs hus hvs
    rw [List.takeWhile_append_of_pos hus]
    cases vs with
    | nil => exact List.append_nil us
    | cons v vs =>
      rw [List.takeWhile_cons_of_neg (by simp [hvs v List.mem_cons_self]), List.append_nil]
  have hsame : xs = xs' := by rw [← htake hxs hys, h, htake hxs' hys']
  exact ⟨hsame, List.append_cancel_left (hsame ▸ h)⟩

theorem le_of_mem_behind (htrans : ∀ a b c, le a b → le b c → le a c)
    (htotal : ∀ a b, le a b || le b a) {l before after : List α} {a b : α}
    (h : l.mergeSort le = before ++ a :: after) (hb : b ∈ after) : le a b = true := by
  have hsorted := List.pairwise_mergeSort htrans htotal l
  rw [h] at hsorted
  exact (List.pairwise_cons.mp (List.pairwise_append.mp hsorted).2.1).1 b hb

/-- A stable sort may leave elements out before it sorts or after. -/
theorem filter_mergeSort (htrans : ∀ a b c, le a b → le b c → le a c)
    (htotal : ∀ a b, le a b || le b a) (p : α → Bool) (l : List α) :
    (l.mergeSort le).filter p = (l.filter p).mergeSort le := by
  induction l with
  | nil => simp
  | cons a l ih =>
    obtain ⟨before, after, hsorted, hrest, hbefore⟩ := List.mergeSort_cons htrans htotal a l
    rw [hrest, List.filter_append] at ih
    rw [hsorted, List.filter_append]
    cases hp : p a with
    | false =>
      rw [List.filter_cons_of_neg (by simp [hp]), List.filter_cons_of_neg (by simp [hp])]
      exact ih
    | true =>
      rw [List.filter_cons_of_pos hp, List.filter_cons_of_pos hp]
      obtain ⟨before', after', hsorted', hrest', hbefore'⟩ :=
        List.mergeSort_cons htrans htotal a (l.filter p)
      -- In both lists `a` stands behind exactly those that it may not stand before.
      have hparts : before.filter p = before' ∧ after.filter p = after' := by
        refine eq_of_append_eq_append (q := fun b => !le a b) (ih.trans hrest') ?_ hbefore' ?_ ?_
        · intro b hb
          exact hbefore b (List.mem_filter.mp hb).1
        · intro b hb
          simp [le_of_mem_behind htrans htotal hsorted (List.mem_filter.mp hb).1]
        · intro b hb
          simp [le_of_mem_behind htrans htotal hsorted' hb]
      rw [hsorted', hparts.1, hparts.2]

end Sorting

end DesignComponents
