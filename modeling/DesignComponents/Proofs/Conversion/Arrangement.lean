import Mathlib.Data.List.Nodup
import Mathlib.Data.Prod.Lex
import DesignComponents.Proofs.Conversion.FailedImages
import DesignComponents.Proofs.Design.Decoding
import DesignComponents.Proofs.Number.Values

/-!
# The arrangement of a design

The nodes inside the root are read from top to bottom and from left to right, those at one place
in the order of the design. So where no two of them lie at one place, it makes no difference in
which order the design has them.
-/

namespace DesignComponents

/-- Where the top left corner of a layer lies, its height before its side; without a box it is
the origin. -/
def Layer.place (l : Layer) : WithBot (WithTop ℚ) ×ₗ WithBot (WithTop ℚ) :=
  match l.box with
  | some b => toLex (b.top.point, b.left.point)
  | none => toLex (0, 0)

theorem Layer.place_eq (l : Layer) : l.place = toLex (l.top.point, l.left.point) := by
  have hzero : (0 : Double).point = 0 := by decide +kernel
  rw [place, top, left]
  cases l.box with
  | none =>
    rw [Option.map_none, Option.map_none, Option.getD_none, hzero]
  | some b => rfl

namespace Node

theorem readsBefore_iff {a b : Node} (ha : a.layer.Placed) (hb : b.layer.Placed) :
    a.readsBefore b = true ↔ a.layer.place ≤ b.layer.place := by
  rw [readsBefore, Layer.readingOrder, Layer.compareNumbers, Layer.compareNumbers,
    Binary.compare?_eq_compare_point ha.1 hb.1, Binary.compare?_eq_compare_point ha.2 hb.2,
    Option.getD_some, Option.getD_some, bne_iff_ne, Layer.place_eq, Layer.place_eq,
    Prod.Lex.le_iff]
  rcases lt_trichotomy a.layer.top.point b.layer.top.point with htop | htop | htop
  · simp [compare_lt_iff_lt.mpr htop, htop]
  · simp [htop, compare_le_iff_le]
  · simp [compare_gt_iff_gt.mpr htop, htop.not_gt, htop.ne']

variable {ns ms : List Node}

theorem AllPlaced.perm (h : AllPlaced ns) (hperm : ms.Perm ns) : AllPlaced ms :=
  fun n hn => h n (hperm.mem_iff.mp hn)

theorem pairwise_place_le (h : AllPlaced ns) :
    (ns.mergeSort readsBefore).Pairwise fun a b => a.layer.place ≤ b.layer.place := by
  have hplaced : AllPlaced (ns.mergeSort placedBefore) := h.perm (List.mergeSort_perm _ _)
  rw [mergeSort_eq_placed h]
  refine (List.pairwise_mergeSort placedBefore_trans placedBefore_total ns).imp_of_mem ?_
  intro a b ha hb hab
  rw [← readsBefore_iff (hplaced a ha) (hplaced b hb), readsBefore_eq (hplaced a ha) (hplaced b hb)]
  exact hab

/-- Nodes at one place stay in the order in which they were. -/
theorem filter_place_mergeSort (h : AllPlaced ns) (p : WithBot (WithTop ℚ) ×ₗ WithBot (WithTop ℚ)) :
    (ns.mergeSort readsBefore).filter (·.layer.place = p) = ns.filter (·.layer.place = p) := by
  rw [mergeSort_eq_placed h, filter_mergeSort placedBefore_trans placedBefore_total]
  apply List.mergeSort_of_pairwise
  rw [List.pairwise_filter]
  refine List.pairwise_of_forall_mem_list ?_
  intro a ha b hb hap hbp
  rw [← readsBefore_eq (h a ha) (h b hb), readsBefore_iff (h a ha) (h b hb)]
  exact (of_decide_eq_true hap).trans_le (of_decide_eq_true hbp).ge

/-- Nodes that all lie at places of their own have only one reading order. -/
theorem mergeSort_eq_of_perm (h : AllPlaced ns) (hperm : ms.Perm ns)
    (hdistinct : (ns.map (·.layer.place)).Nodup) :
    ms.mergeSort readsBefore = ns.mergeSort readsBefore := by
  have hms : (ms.mergeSort readsBefore).Perm ns := (List.mergeSort_perm _ _).trans hperm
  have hns : (ns.mergeSort readsBefore).Perm ns := List.mergeSort_perm _ _
  refine List.Perm.eq_of_pairwise ?_ (pairwise_place_le (h.perm hperm)) (pairwise_place_le h)
    (hms.trans hns.symm)
  intro a b ha hb hab hba
  exact List.inj_on_of_nodup_map hdistinct (hms.mem_iff.mp ha) (hns.mem_iff.mp hb)
    (le_antisymm hab hba)

end Node

namespace Conversion

theorem ofLink_congr_of_inReadingOrder {source source' : Source} {fileKey id : String}
    {root root' : Node} (himage : source'.image = source.image)
    (hroot : source.document fileKey (nodeId id) = .ok root)
    (hroot' : source'.document fileKey (nodeId id) = .ok root')
    (hsame : root'.inReadingOrder = root.inReadingOrder) (o : Options) (catalogue : Catalogue) :
    ofLink source' o catalogue fileKey id = ofLink source o catalogue fileKey id := by
  simp only [ofLink, hroot, hroot', ofRoot, hsame, himage]

/-- The children of a root are put in order by their places, from top to bottom and then from
left to right; those at one place keep their order, and nothing else changes. So two designs with
the same nodes below the root in another order, all at places of their own, are converted to the
same, and the same is asked for on the way. The nodes of every document of a client have places. -/
theorem children_are_arranged {root : Node} (h : Node.AllPlaced root.children) :
    root.inReadingOrder.layer = root.layer ∧
      root.inReadingOrder.children.Perm root.children ∧
      root.inReadingOrder.children.Pairwise (fun a b => a.layer.place ≤ b.layer.place) ∧
      (∀ p, root.inReadingOrder.children.filter (·.layer.place = p) =
        root.children.filter (·.layer.place = p)) ∧
      (∀ root' : Node, root'.layer = root.layer → root'.children.Perm root.children →
        (root.children.map (·.layer.place)).Nodup →
        ∀ (source source' : Source) (o : Options) (catalogue : Catalogue) (fileKey id : String),
          source'.image = source.image → source.document fileKey (nodeId id) = .ok root →
          source'.document fileKey (nodeId id) = .ok root' →
          ofLink source' o catalogue fileKey id = ofLink source o catalogue fileKey id) ∧
      ∀ (c : Client) (web : Web) (fileKey id : String) (fetched : Node),
        (c.source web).document fileKey id = .ok fetched → Node.AllPlaced fetched.children := by
  obtain ⟨layer, children⟩ := root
  refine ⟨rfl, List.mergeSort_perm _ _, Node.pairwise_place_le h, Node.filter_place_mergeSort h, ?_,
    fun _ _ _ _ _ hfetched => Client.allPlaced_document hfetched⟩
  rintro ⟨layer', children'⟩ rfl hperm hdistinct source source' o catalogue fileKey id himage hroot
    hroot'
  refine ofLink_congr_of_inReadingOrder himage hroot hroot' ?_ o catalogue
  exact congrArg (Node.mk _) (Node.mergeSort_eq_of_perm h hperm hdistinct)

/-! ## A board with its notes in disorder -/

/-- A text of these characters with its top left corner at this height and side. -/
def noteAt (text : String) (top left : Double) : Node :=
  .mk { bareLayer text text .text true with
    box := some ⟨left, top, 0, 0⟩, characters := some text } []

def title : Node :=
  .mk { bareLayer "title" "title" .text true with characters := some "title" } []

/-- The title has no box, so it lies at the origin, like a note at a negative zero. -/
example : title.layer.place = (noteAt "origin" (-0) 0).layer.place := by decide +kernel

def board : Node :=
  .mk (bareLayer "1:1" "Board" .frame true)
    [title, noteAt "left" 10 10, noteAt "right" 10 50, noteAt "below" 40 0]

def disorderedBoard : Node := .mk board.layer board.children.reverse

theorem inReadingOrder_board : board.inReadingOrder = board := by
  rw [board, Node.inReadingOrder, List.mergeSort_of_pairwise]
  decide +kernel

theorem disordered_board_is_arranged :
    Node.AllPlaced disorderedBoard.children ∧ board.layer = disorderedBoard.layer ∧
      board.children.Perm disorderedBoard.children ∧
      (disorderedBoard.children.map (·.layer.place)).Nodup ∧
      ofLink (sourceOf board) Component.plainReact (Shelf.store.catalogue [] Component.plainReact)
          "FILE" "1:1" =
        ofLink (sourceOf disorderedBoard) Component.plainReact
          (Shelf.store.catalogue [] Component.plainReact) "FILE" "1:1" ∧
      (ofRoot (sourceOf board) Component.plainReact
          (Shelf.store.catalogue [] Component.plainReact) "FILE" board).1.markup .react =
        "<div className=\"\"><p className=\"\">title</p><p className=\"\">left</p>" ++
          "<p className=\"\">right</p><p className=\"\">below</p></div>" := by
  have hplaced : Node.AllPlaced disorderedBoard.children := by
    unfold Node.AllPlaced
    decide +kernel
  have hperm : board.children.Perm disorderedBoard.children := (List.reverse_perm _).symm
  have hdistinct : (disorderedBoard.children.map (·.layer.place)).Nodup := by decide +kernel
  obtain ⟨_, _, _, _, hsame, _⟩ := children_are_arranged hplaced
  refine ⟨hplaced, rfl, hperm, hdistinct, ?_, ?_⟩
  · exact hsame board rfl hperm hdistinct (sourceOf disorderedBoard) (sourceOf board) _ _ _ _ rfl
      rfl rfl
  · rw [ofRoot, inReadingOrder_board]
    decide +kernel

end Conversion

end DesignComponents
