import DesignComponents.Proofs.Component.Identifier
import DesignComponents.Proofs.Project.Paths
import DesignComponents.Proofs.Text.LowerCase

/-!
# What an identifier keeps of a name

The identifier that is made from a name has the letters and digits of the name, all of them and in
their order, but for the digits in front of the first letter. Only the case of letters can differ.
Where a name has no letter there is nothing to keep. An identifier is made from itself.
-/

namespace DesignComponents

open Element

/-- The letters and digits of a name from its first letter on. -/
def keptChars (raw : List Char) : List Char := (raw.filter Char.isAlphanum).dropWhile Char.isDigit

/-! ## Words -/

theorem flatten_extendFirst (c : Char) (parts : List (List Char)) :
    (extendFirst c parts).flatten = c :: parts.flatten := by
  cases parts with
  | nil => rfl
  | cons part parts => rfl

theorem flatten_splitBy (p : Char → Bool) (cs : List Char) :
    (splitBy p cs).flatten = cs.filter (!p ·) := by
  induction cs with
  | nil => rfl
  | cons c cs ih =>
    rw [splitBy]
    split
    · rename_i hc
      simp [hc, ih]
    · rename_i hc
      rw [flatten_extendFirst, ih]
      simp [hc]

theorem flatten_wordsOf (cs : List Char) : (wordsOf cs).flatten = cs.filter (!isBlank ·) := by
  rw [← flatten_splitBy, wordsOf]
  exact List.flatten_filter_ne_nil

theorem not_isDigit_of_isAlpha {c : Char} (h : c.isAlpha = true) : c.isDigit = false := by
  rw [isAlpha_iff_toNat] at h
  rw [← Bool.not_eq_true, Char.isDigit_iff_toNat]
  intro hdigit
  change 48 ≤ c.toNat ∧ c.toNat ≤ 57 at hdigit
  omega

theorem not_isBlank_of_isAlphanum {c : Char} (h : c.isAlphanum = true) : isBlank c = false := by
  rw [isAlphanum_iff_toNat] at h
  simp only [isBlank, Bool.or_eq_false_iff, Bool.and_eq_false_iff, decide_eq_false_iff_not,
    beq_eq_false_iff_ne]
  omega

/-! ## Case -/

theorem isDigit_toLower (c : Char) : c.toLower.isDigit = c.isDigit := by
  cases halpha : c.isAlpha with
  | false =>
    have hupper : ¬c.isUpper = true := by
      intro hupper
      rw [Char.isAlpha, hupper, Bool.true_or] at halpha
      cases halpha
    rw [Char.toLower_eq_of_not_isUpper hupper]
  | true =>
    have hlower : c.toLower.isAlpha = true := by rw [Char.isAlpha_toLower_eq_isAlpha, halpha]
    rw [not_isDigit_of_isAlpha halpha, not_isDigit_of_isAlpha hlower]

theorem map_toLower_capitalize (cs : List Char) :
    (capitalize cs).map Char.toLower = cs.map Char.toLower := by
  cases cs with
  | nil => rfl
  | cons c cs => simp [capitalize]

theorem map_toLower_dropWhile (cs : List Char) :
    (cs.dropWhile Char.isDigit).map Char.toLower =
      (cs.map Char.toLower).dropWhile Char.isDigit := by
  have hdigit : Char.isDigit ∘ Char.toLower = Char.isDigit := funext isDigit_toLower
  rw [List.dropWhile_map, hdigit]

/-! ## From a name to its identifier -/

theorem map_toLower_joinedWords (raw : List Char) :
    (joinedWords raw).map Char.toLower = (raw.filter Char.isAlphanum).map Char.toLower := by
  have hfilter : ((wordsOf raw).flatten).filter Char.isAlphanum = raw.filter Char.isAlphanum := by
    rw [flatten_wordsOf, List.filter_filter]
    apply List.filter_congr
    intro c _
    cases halphanum : c.isAlphanum with
    | false => rfl
    | true => simp [not_isBlank_of_isAlphanum halphanum]
  rw [joinedWords, ← hfilter, List.filter_flatten, List.map_flatten, List.map_map, List.map_flatMap,
    List.flatMap_def]
  congr 1
  apply List.map_congr_left
  intro word _
  exact map_toLower_capitalize _

theorem map_toLower_kept (raw : List Char) :
    (capitalize ((joinedWords raw).dropWhile Char.isDigit)).map Char.toLower =
      (keptChars raw).map Char.toLower := by
  rw [map_toLower_capitalize, map_toLower_dropWhile, map_toLower_joinedWords,
    ← map_toLower_dropWhile, keptChars]

/-- Something is kept of a name that has a letter, and of no other. -/
theorem keptChars_eq_nil_iff (raw : List Char) :
    keptChars raw = [] ↔ ∀ c ∈ raw, c.isAlpha = false := by
  rw [keptChars, List.dropWhile_eq_nil_iff]
  constructor
  · intro h c hc
    rw [← Bool.not_eq_true]
    intro halpha
    have hdigit := h c (List.mem_filter.mpr ⟨hc, by rw [Char.isAlphanum, halpha, Bool.true_or]⟩)
    rw [not_isDigit_of_isAlpha halpha] at hdigit
    cases hdigit
  · intro h c hc
    obtain ⟨hmem, halphanum⟩ := List.mem_filter.mp hc
    rwa [Char.isAlphanum, h c hmem, Bool.false_or] at halphanum

theorem map_toLower_identifierChars {raw : List Char} (h : ∃ c ∈ raw, c.isAlpha = true) :
    (identifierChars raw).map Char.toLower = (keptChars raw).map Char.toLower := by
  have hsome : keptChars raw ≠ [] := by
    intro hempty
    obtain ⟨c, hc, halpha⟩ := h
    rw [(keptChars_eq_nil_iff raw).mp hempty c hc] at halpha
    cases halpha
  have hne : ¬(capitalize ((joinedWords raw).dropWhile Char.isDigit)).isEmpty = true := by
    intro hempty
    have hkept := map_toLower_kept raw
    rw [List.isEmpty_iff.mp hempty] at hkept
    exact hsome (List.map_eq_nil_iff.mp hkept.symm)
  rw [identifierChars, if_neg hne]
  exact map_toLower_kept raw

theorem identifierChars_of_no_letter {raw : List Char} (h : ∀ c ∈ raw, c.isAlpha = false) :
    identifierChars raw = defaultComponentName.toList := by
  have hkept := map_toLower_kept raw
  rw [(keptChars_eq_nil_iff raw).mpr h] at hkept
  rw [identifierChars, List.map_eq_nil_iff.mp hkept]
  rfl

/-- An identifier has one word, with a capital in front, and nothing to be dropped. -/
theorem identifierChars_of_isComponentName {cs : List Char} (h : IsComponentName cs) :
    identifierChars cs = cs := by
  obtain ⟨⟨hne, halphanum⟩, hhead⟩ := h
  have hwords : wordsOf cs = [cs] := by
    rw [wordsOf, splitBy_eq_singleton fun c hc => not_isBlank_of_isAlphanum (halphanum c hc)]
    simp [hne]
  have hfilter : cs.filter Char.isAlphanum = cs := List.filter_eq_self.mpr halphanum
  cases cs with
  | nil => exact absurd rfl hne
  | cons first rest =>
    have hupper : first.isUpper = true := hhead
    have hcapital : capitalize (first :: rest) = first :: rest := by
      rw [capitalize, Char.toUpper_eq_of_not_isLower (Char.not_isLower_of_isUpper hupper)]
    have halpha : first.isAlpha = true := by rw [Char.isAlpha, hupper, Bool.true_or]
    have hdigit : ¬first.isDigit = true := by
      rw [not_isDigit_of_isAlpha halpha]
      exact Bool.false_ne_true
    have hjoined : joinedWords (first :: rest) = first :: rest := by
      rw [joinedWords, hwords, List.flatMap_singleton, hfilter, hcapital]
    rw [identifierChars, hjoined, List.dropWhile_cons_of_neg hdigit, hcapital]
    rfl

/-- The name of a component is a capital with letters and digits behind it, and its own name. If
what it was made from has a letter its characters are those from the first letter on, the case of
letters aside; else there is none to keep and the name is the one that stands in. -/
theorem componentName_keeps_letters (raw : String) :
    (∃ first rest, (componentName raw).toList = first :: rest ∧ first.isUpper = true ∧
        ∀ c ∈ rest, c.isAlphanum = true) ∧
      componentName (componentName raw) = componentName raw ∧
      ((∃ c ∈ raw.toList, c.isAlpha = true) ∧
          (componentName raw).toList.map Char.toLower =
            ((raw.toList.filter Char.isAlphanum).dropWhile Char.isDigit).map Char.toLower ∨
        (∀ c ∈ raw.toList, c.isAlpha = false) ∧ componentName raw = defaultComponentName) := by
  have hname : IsComponentName (componentName raw).toList := isComponentName_componentName raw
  refine ⟨?_, ?_, ?_⟩
  · obtain ⟨⟨hne, halphanum⟩, hhead⟩ := hname
    cases hchars : (componentName raw).toList with
    | nil => exact absurd hchars hne
    | cons first rest =>
      rw [hchars] at halphanum hhead
      exact ⟨first, rest, rfl, hhead, fun c hc => halphanum c (List.mem_cons_of_mem first hc)⟩
  · change String.ofList (identifierChars (componentName raw).toList) = componentName raw
    rw [identifierChars_of_isComponentName hname, String.ofList_toList]
  · cases hkept : keptChars raw.toList with
    | nil =>
      right
      have hletter := (keptChars_eq_nil_iff raw.toList).mp hkept
      refine ⟨hletter, ?_⟩
      change String.ofList (identifierChars raw.toList) = _
      rw [identifierChars_of_no_letter hletter, String.ofList_toList]
    | cons first rest =>
      left
      have hletter : ∃ c ∈ raw.toList, c.isAlpha = true := by
        by_contra hnone
        have hempty := (keptChars_eq_nil_iff raw.toList).mpr fun c hc => by
          rw [← Bool.not_eq_true]
          exact fun halpha => hnone ⟨c, hc, halpha⟩
        rw [hkept] at hempty
        cases hempty
      refine ⟨hletter, ?_⟩
      change (String.ofList (identifierChars raw.toList)).toList.map Char.toLower = _
      rw [String.toList_ofList, map_toLower_identifierChars hletter, keptChars]

end DesignComponents
