import Mathlib.Data.List.DropRight
import DesignComponents.Design.NodeId

/-!
# Ids of nodes in links

A link writes an id with hyphens for its colons. What is read back has no hyphens and no blanks at
its ends, and reading it once more changes nothing; an id of that form survives the way into a
link and out of it.
-/

namespace DesignComponents

/-! ## Trimming -/

section Trimming

variable {p : Char → Bool}

theorem dropWhile_dropEnd {cs : List Char} (h : cs.dropWhile p = cs) :
    (dropEnd p cs).dropWhile p = dropEnd p cs := by
  obtain ⟨behind, hbehind⟩ : dropEnd p cs <+: cs := List.rdropWhile_prefix p cs
  cases hkept : dropEnd p cs with
  | nil => rfl
  | cons c rest =>
    rw [hkept] at hbehind
    have hc : ¬p c = true := by
      intro hc
      rw [← hbehind, List.cons_append, List.dropWhile_cons_of_pos hc] at h
      have hlength := (List.dropWhile_sublist p (l := rest ++ behind)).length_le
      rw [h] at hlength
      exact absurd hlength (Nat.not_succ_le_self _)
    exact List.dropWhile_cons_of_neg hc

theorem trimEnds_trimEnds (cs : List Char) : trimEnds p (trimEnds p cs) = trimEnds p cs := by
  have hfront : (trimEnds p cs).dropWhile p = trimEnds p cs :=
    dropWhile_dropEnd (List.dropWhile_idempotent p cs)
  rw [trimEnds, hfront]
  exact List.rdropWhile_idempotent p (cs.dropWhile p)

theorem trimEnds_map {f : Char → Char} (h : ∀ c, p (f c) = p c) (cs : List Char) :
    trimEnds p (cs.map f) = (trimEnds p cs).map f := by
  have hcomp : p ∘ f = p := funext h
  rw [trimEnds, List.dropWhile_map, hcomp, ← List.map_reverse, List.dropWhile_map, hcomp,
    ← List.map_reverse, trimEnds]

end Trimming

/-! ## Hyphens and colons -/

def hyphenFor (c : Char) : Char := if c = ':' then '-' else c

/-- An id as a link writes it. -/
def writtenId (id : String) : String := String.ofList (id.toList.map hyphenFor)

theorem colonFor_ne_hyphen (c : Char) : colonFor c ≠ '-' := by
  unfold colonFor
  split
  · decide
  · assumption

theorem colonFor_of_ne {c : Char} (h : c ≠ '-') : colonFor c = c := if_neg h

theorem colonFor_hyphenFor {c : Char} (h : c ≠ '-') : colonFor (hyphenFor c) = c := by
  unfold hyphenFor
  split
  · rename_i hc
    rw [hc]
    rfl
  · exact colonFor_of_ne h

theorem isBlank_colonFor (c : Char) : isBlank (colonFor c) = isBlank c := by
  unfold colonFor
  split
  · rename_i hc
    rw [hc]
    rfl
  · rfl

theorem isBlank_hyphenFor (c : Char) : isBlank (hyphenFor c) = isBlank c := by
  unfold hyphenFor
  split
  · rename_i hc
    rw [hc]
    rfl
  · rfl

/-! ## Ids -/

/-- Ids in the form in which the design service has them. -/
structure IsNodeId (id : String) : Prop where
  ne_empty : id ≠ ""
  no_hyphen : '-' ∉ id.toList
  trimmed_eq : trimmed id = id

theorem isNodeId_nodeId {written : String} (h : nodeId written ≠ "") :
    IsNodeId (nodeId written) where
  ne_empty := h
  no_hyphen := by
    rw [nodeId, String.toList_ofList]
    intro hmem
    obtain ⟨c, _, hc⟩ := List.mem_map.mp hmem
    exact colonFor_ne_hyphen c hc
  trimmed_eq := by
    rw [trimmed, nodeId, String.toList_ofList, trimBlanks, trimEnds_map isBlank_colonFor,
      trimBlanks, trimEnds_trimEnds]

namespace IsNodeId

variable {id : String} (h : IsNodeId id)
include h

theorem trimBlanks_eq : trimBlanks id.toList = id.toList := by
  have htrim := congrArg String.toList h.trimmed_eq
  rwa [trimmed, String.toList_ofList] at htrim

theorem map_toList_eq {f : Char → Char} (hf : ∀ c, c ≠ '-' → f c = c) :
    id.toList.map f = id.toList := by
  have hid : id.toList.map f = id.toList.map (fun c => c) :=
    List.map_congr_left fun c hc => hf c fun heq => h.no_hyphen (heq ▸ hc)
  rw [hid, List.map_id']

theorem nodeId_eq : nodeId id = id := by
  rw [nodeId, h.trimBlanks_eq, h.map_toList_eq fun _ hc => colonFor_of_ne hc,
    String.ofList_toList]

/-- An id comes out of a link as it was. -/
theorem nodeId_writtenId : nodeId (writtenId id) = id := by
  have hback : id.toList.map (colonFor ∘ hyphenFor) = id.toList :=
    h.map_toList_eq fun _ hc => colonFor_hyphenFor hc
  rw [nodeId, writtenId, String.toList_ofList, trimBlanks, trimEnds_map isBlank_hyphenFor,
    ← trimBlanks, h.trimBlanks_eq, List.map_map, hback, String.ofList_toList]

theorem toList_ne_nil : id.toList ≠ [] := fun hnil => h.ne_empty (String.toList_eq_nil_iff.mp hnil)

theorem dropEnd_writtenId :
    dropEnd isBlank (writtenId id).toList = (writtenId id).toList := by
  have htrim : trimEnds isBlank (writtenId id).toList = (writtenId id).toList := by
    rw [writtenId, String.toList_ofList, trimEnds_map isBlank_hyphenFor, ← trimBlanks,
      h.trimBlanks_eq]
  have hidem : dropEnd isBlank (trimEnds isBlank (writtenId id).toList) =
      trimEnds isBlank (writtenId id).toList := List.rdropWhile_idempotent isBlank _
  rwa [htrim] at hidem

theorem toList_writtenId_ne_nil : (writtenId id).toList ≠ [] := by
  rw [writtenId, String.toList_ofList]
  exact mt List.map_eq_nil_iff.mp h.toList_ne_nil

end IsNodeId

end DesignComponents
