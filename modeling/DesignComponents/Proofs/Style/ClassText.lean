import DesignComponents.Proofs.Markup.Escaping
import DesignComponents.Style.ClassList

/-!
# Class lists as text

Classes are written into an attribute with a blank between each two and without any escaping. As
long as none of them holds a blank or a reserved character, the text is a harmless value, and the
classes are the parts between its blanks.
-/

namespace DesignComponents.ClassList

/-! ## Tokens of a list that grows -/

theorem mem_tokens_pushAll {c : ClassList} {tokens : List String} {t : String}
    (h : t ∈ (c.pushAll tokens).tokens) : t ∈ c.tokens ∨ t ∈ tokens := by
  induction tokens generalizing c with
  | nil => exact .inl h
  | cons u tokens ih =>
    rcases ih h with hc | ht
    · rw [tokens_push] at hc
      split at hc
      · exact .inl hc
      · rcases List.mem_append.mp hc with hc | hu
        · exact .inl hc
        · exact .inr (List.mem_singleton.mp hu ▸ List.mem_cons_self)
    · exact .inr (List.mem_cons_of_mem u ht)

theorem mem_tokens_ofList {tokens : List String} {t : String}
    (h : t ∈ (ofList tokens).tokens) : t ∈ tokens :=
  (mem_tokens_pushAll h).resolve_left List.not_mem_nil

theorem mem_tokens_append {c d : ClassList} {t : String} (h : t ∈ (c ++ d).tokens) :
    t ∈ c.tokens ∨ t ∈ d.tokens := mem_tokens_pushAll h

/-- Tokens that are new and not empty are all put behind those that are there. -/
theorem tokens_pushAll {c : ClassList} {tokens : List String}
    (hnodup : (c.tokens ++ tokens).Nodup) (hempty : "" ∉ tokens) :
    (c.pushAll tokens).tokens = c.tokens ++ tokens := by
  induction tokens generalizing c with
  | nil => exact (List.append_nil _).symm
  | cons t tokens ih =>
    have ht : t ∉ c.tokens := by
      intro hm
      exact (List.nodup_append.mp hnodup).2.2 t hm t List.mem_cons_self rfl
    have hne : t ≠ "" := fun h => hempty (h ▸ List.mem_cons_self)
    have hpush : (c.push t).tokens = c.tokens ++ [t] := by
      rw [tokens_push, if_neg (not_or.mpr ⟨hne, ht⟩)]
    have htail : "" ∉ tokens := fun h => hempty (List.mem_cons_of_mem t h)
    change ((c.push t).pushAll tokens).tokens = _
    rw [ih (by rw [hpush, List.append_assoc]; exact hnodup) htail, hpush, List.append_assoc]
    rfl

theorem ofList_tokens (c : ClassList) : ofList c.tokens = c :=
  ext (tokens_pushAll (c := empty) c.nodup c.no_empty)

theorem tokens_append {c d : ClassList} (h : ∀ t ∈ c.tokens, t ∉ d.tokens) :
    (c ++ d).tokens = c.tokens ++ d.tokens := by
  refine tokens_pushAll ?_ d.no_empty
  refine List.nodup_append.mpr ⟨c.nodup, d.nodup, ?_⟩
  intro a ha b hb heq
  exact h a ha (heq ▸ hb)

/-! ## Reading a text of classes -/

/-- The classes between the blanks of a text. -/
def ofText (s : String) : ClassList :=
  .ofList (((s.toList.splitOn ' ').filter (· ≠ [])).map String.ofList)

/-- A character that stands for itself in an attribute and parts no classes. -/
def Bare (c : Char) : Prop := c ≠ ' ' ∧ c ∉ Markup.reservedInValues

instance (c : Char) : Decidable (Bare c) := by unfold Bare; infer_instance

/-- Every character of every class is bare. -/
def AllBare (c : ClassList) : Prop := ∀ t ∈ c.tokens, ∀ ch ∈ t.toList, Bare ch

theorem toList_text (c : ClassList) :
    c.text.toList = [' '].intercalate (c.tokens.map String.toList) := by
  rw [text, String.toList_intercalate]
  rfl

theorem mem_intercalate_blank {parts : List (List Char)} {ch : Char}
    (h : ch ∈ [' '].intercalate parts) : ch = ' ' ∨ ∃ part ∈ parts, ch ∈ part := by
  induction parts with
  | nil => exact absurd h List.not_mem_nil
  | cons part parts ih =>
    cases parts with
    | nil =>
      rw [List.intercalate_singleton] at h
      exact .inr ⟨part, List.mem_cons_self, h⟩
    | cons q parts =>
      rw [List.intercalate_cons_cons, List.mem_append, List.mem_append] at h
      rcases h with (hpart | hblank) | hrest
      · exact .inr ⟨part, List.mem_cons_self, hpart⟩
      · exact .inl (List.mem_singleton.mp hblank)
      · rcases ih hrest with hblank | ⟨r, hr, hch⟩
        · exact .inl hblank
        · exact .inr ⟨r, List.mem_cons_of_mem part hr, hch⟩

/-- Nothing in the text of bare classes would have to be escaped. -/
theorem not_mem_reservedInValues {c : ClassList} (h : c.AllBare) {ch : Char}
    (hch : ch ∈ c.text.toList) : ch ∉ Markup.reservedInValues := by
  rw [toList_text] at hch
  rcases mem_intercalate_blank hch with rfl | ⟨part, hpart, hc⟩
  · decide
  · obtain ⟨t, ht, rfl⟩ := List.mem_map.mp hpart
    exact (h t ht ch hc).2

theorem escapeChars_text {c : ClassList} (h : c.AllBare) :
    Markup.escapeChars c.text.toList = c.text.toList :=
  Markup.escapeChars_of_forall_not_mem fun _ hch => not_mem_reservedInValues h hch

theorem splitOn_text {c : ClassList} (h : c.AllBare) (hfull : c.tokens ≠ []) :
    c.text.toList.splitOn ' ' = c.tokens.map String.toList := by
  have hblank : ∀ part ∈ c.tokens.map String.toList, ' ' ∉ part := by
    intro part hpart hm
    obtain ⟨t, ht, rfl⟩ := List.mem_map.mp hpart
    exact (h t ht ' ' hm).1 rfl
  have hnonempty : c.tokens.map String.toList ≠ [] := by
    intro hnil
    exact hfull (List.map_eq_nil_iff.mp hnil)
  rw [toList_text, List.splitOn_intercalate ' ' hblank hnonempty]

theorem map_ofList_toList (tokens : List String) :
    (tokens.map String.toList).map String.ofList = tokens := by
  have hid : String.ofList ∘ String.toList = id := funext fun s => String.ofList_toList
  rw [List.map_map, hid, List.map_id]

theorem ofText_text {c : ClassList} (h : c.AllBare) : ofText c.text = c := by
  have hfull : ∀ part ∈ c.tokens.map String.toList, decide (part ≠ []) = true := by
    intro part hpart
    obtain ⟨t, ht, rfl⟩ := List.mem_map.mp hpart
    refine decide_eq_true fun hnil => c.no_empty ?_
    rwa [String.toList_eq_nil_iff.mp hnil] at ht
  have hparts : (c.text.toList.splitOn ' ').filter (· ≠ []) = c.tokens.map String.toList := by
    by_cases hnone : c.tokens = []
    · rw [toList_text, hnone]
      rfl
    · rw [splitOn_text h hnone, List.filter_eq_self.mpr hfull]
  rw [ofText, hparts, map_ofList_toList, ofList_tokens]

/-- The parts of a text between each two single blanks; an empty text has none. -/
def parts (s : String) : List String :=
  if s = "" then [] else (s.toList.splitOn ' ').map String.ofList

theorem text_eq_empty_iff {c : ClassList} (h : c.AllBare) : c.text = "" ↔ c.tokens = [] := by
  constructor
  · intro hempty
    refine Decidable.byContradiction fun hfull => ?_
    have hsplit := splitOn_text h hfull
    rw [hempty] at hsplit
    have htokens : c.tokens = [""] := by
      rw [← map_ofList_toList c.tokens, ← hsplit]
      rfl
    exact c.no_empty (by rw [htokens]; exact List.mem_singleton_self _)
  · intro hnone
    rw [text, hnone]
    rfl

/-- No class is lost or cut where the text of bare classes is parted at its blanks. -/
theorem parts_text {c : ClassList} (h : c.AllBare) : parts c.text = c.tokens := by
  unfold parts
  split
  · rename_i hempty
    exact ((text_eq_empty_iff h).mp hempty).symm
  · rename_i hfull
    have hsome : c.tokens ≠ [] := fun hnone => hfull ((text_eq_empty_iff h).mpr hnone)
    rw [splitOn_text h hsome, map_ofList_toList]

end DesignComponents.ClassList
