import Mathlib
import DesignComponents.Component.Name
import DesignComponents.Proofs.Markup.Reading

/-!
# Component names are identifiers

Whatever a layer is called, the name made from it can name a component: it is spelled with
letters and digits and begins with a capital.
-/

namespace DesignComponents

open Element

theorem isAlphanum_toUpper {c : Char} (h : c.isAlphanum = true) : c.toUpper.isAlphanum = true := by
  cases hlower : c.isLower with
  | true =>
    have halpha : c.isAlpha = true := by
      rw [Char.isAlpha, hlower, Bool.or_true]
    rw [Char.isAlphanum, Char.isAlpha_toUpper_eq_isAlpha, halpha, Bool.true_or]
  | false =>
    rw [Char.toUpper_eq_of_not_isLower (by simp [hlower])]
    exact h

theorem mem_capitalize {cs : List Char} (h : ∀ c ∈ cs, c.isAlphanum = true) :
    ∀ c ∈ capitalize cs, c.isAlphanum = true := by
  cases cs with
  | nil => exact h
  | cons first rest =>
    obtain ⟨hfirst, hrest⟩ := List.forall_mem_cons.mp h
    exact List.forall_mem_cons.mpr ⟨isAlphanum_toUpper hfirst, hrest⟩

theorem isAlphanum_of_mem_joinedWords {raw : List Char} {c : Char} (h : c ∈ joinedWords raw) :
    c.isAlphanum = true := by
  obtain ⟨word, _, hc⟩ := List.mem_flatMap.mp h
  refine mem_capitalize ?_ c hc
  intro d hd
  exact (List.mem_filter.mp hd).2

/-- With the digits in front dropped, what a name begins with has a capital. -/
theorem isComponentName_capitalize {cs : List Char} (h : ∀ c ∈ cs, c.isAlphanum = true)
    (hne : capitalize (cs.dropWhile Char.isDigit) ≠ []) :
    IsComponentName (capitalize (cs.dropWhile Char.isDigit)) := by
  have hrest : ∀ c ∈ cs.dropWhile Char.isDigit, c.isAlphanum = true :=
    fun c hc => h c ((List.dropWhile_sublist Char.isDigit).subset hc)
  refine ⟨⟨hne, mem_capitalize hrest⟩, ?_⟩
  cases hdrop : cs.dropWhile Char.isDigit with
  | nil => exact absurd (by rw [hdrop]; rfl) hne
  | cons first rest =>
    have hdigit : first.isDigit = false := by
      have hhead := List.head?_dropWhile_not Char.isDigit cs
      rw [hdrop] at hhead
      simpa using hhead
    have hfirst : first.isAlphanum = true := hrest first (hdrop ▸ List.mem_cons_self)
    have halpha : first.isAlpha = true := by
      rwa [Char.isAlphanum, hdigit, Bool.or_false] at hfirst
    rw [← Char.isUpper_toUpper_eq_isAlpha] at halpha
    exact halpha

theorem isComponentName_identifierChars (raw : List Char) :
    IsComponentName (identifierChars raw) := by
  rw [identifierChars]
  split
  · decide
  · rename_i hne
    refine isComponentName_capitalize (fun c hc => isAlphanum_of_mem_joinedWords hc) ?_
    exact fun hnil => hne (List.isEmpty_iff.mpr hnil)

theorem isComponentName_componentName (raw : String) :
    IsComponentName (componentName raw).toList := by
  rw [componentName, String.toList_ofList]
  exact isComponentName_identifierChars raw.toList

theorem head?_componentName_append (raw more : String) :
    ∃ c, (componentName raw ++ more).toList.head? = some c ∧ c.isUpper = true := by
  obtain ⟨_, hhead⟩ := isComponentName_componentName raw
  obtain ⟨c, hc, hupper⟩ := (Option.any_eq_true _ _).mp hhead
  refine ⟨c, ?_, hupper⟩
  rw [String.toList_append, List.head?_append, hc]
  rfl

end DesignComponents
