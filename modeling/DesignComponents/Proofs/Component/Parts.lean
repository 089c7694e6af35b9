import DesignComponents.Proofs.Component.Identifier

/-!
# Parts of identifiers

An identifier falls into parts: one begins with it, and one with each capital that stands behind a
lower-case letter or a digit. In kebab case its parts are in lower case with hyphens between them.
So two identifiers are the same in kebab case if and only if their parts differ in nothing but the
case of letters.
-/

namespace DesignComponents

open Element

/-- Whether of two characters in a row the second belongs to the part of the first. -/
def samePart (c d : Char) : Bool := !(d.isUpper && (c.isLower || c.isDigit))

def identifierParts (cs : List Char) : List (List Char) := cs.splitBy samePart

/-- The parts of an identifier in lower case. -/
def kebabParts (cs : List Char) : List (List Char) :=
  (identifierParts cs).map fun part => part.map Char.toLower

/-! ## Hyphens between parts -/

theorem kebabChars_cons_of_samePart {c d : Char} (hd : d ≠ '_') (h : samePart c d = true)
    (cs : List Char) : kebabChars (some c) (d :: cs) = d.toLower :: kebabChars (some d) cs := by
  rw [samePart, Bool.not_eq_eq_eq_not, Bool.not_true] at h
  rw [kebabChars, if_neg hd, endsPart, h, if_neg Bool.false_ne_true]

theorem kebabChars_cons_of_not_samePart {c d : Char} (hd : d ≠ '_') (h : samePart c d = false)
    (cs : List Char) :
    kebabChars (some c) (d :: cs) = '-' :: d.toLower :: kebabChars (some d) cs := by
  rw [samePart, Bool.not_eq_eq_eq_not, Bool.not_false] at h
  rw [kebabChars, if_neg hd, endsPart, h, if_pos rfl]

/-- No hyphen is put within a part. -/
theorem kebabChars_append {c : Char} {cs : List Char} (hcs : '_' ∉ cs)
    (hpart : (c :: cs).IsChain fun c d => samePart c d = true) (rest : List Char) :
    kebabChars (some c) (cs ++ rest) =
      cs.map Char.toLower ++
        kebabChars (some ((c :: cs).getLast (List.cons_ne_nil c cs))) rest := by
  induction cs generalizing c with
  | nil => rfl
  | cons d cs ih =>
    obtain ⟨hd, hcs⟩ := not_or.mp (mt List.mem_cons.mpr hcs)
    obtain ⟨hsame, hpart⟩ := List.isChain_cons_cons.mp hpart
    rw [List.cons_append, kebabChars_cons_of_samePart (Ne.symm hd) hsame, ih hcs hpart]
    rfl

/-- One hyphen is put before each part that follows on another. -/
theorem kebabChars_append_flatten {c : Char} {cs : List Char} {parts : List (List Char)}
    (hplain : '_' ∉ cs ++ parts.flatten)
    (hparts : ∀ part ∈ (c :: cs) :: parts, part.IsChain fun c d => samePart c d = true)
    (hbounds : ((c :: cs) :: parts).IsChain fun part part' =>
      ∃ h h', samePart (part.getLast h) (part'.head h') = false) :
    kebabChars (some c) (cs ++ parts.flatten) =
      cs.map Char.toLower ++ parts.flatMap fun part => '-' :: part.map Char.toLower := by
  induction parts generalizing c cs with
  | nil =>
    obtain ⟨hcs, _⟩ := not_or.mp (mt List.mem_append.mpr hplain)
    rw [kebabChars_append hcs (hparts _ List.mem_cons_self)]
    rfl
  | cons part parts ih =>
    obtain ⟨hcs, hrest⟩ := not_or.mp (mt List.mem_append.mpr hplain)
    obtain ⟨⟨_, hne, hapart⟩, hbounds⟩ := List.isChain_cons_cons.mp hbounds
    obtain ⟨hpart, hparts⟩ := List.forall_mem_cons.mp hparts
    obtain ⟨d, ds, rfl⟩ := List.exists_cons_of_ne_nil hne
    rw [List.flatten_cons, List.cons_append] at hrest ⊢
    obtain ⟨hd, hrest⟩ := not_or.mp (mt List.mem_cons.mpr hrest)
    rw [kebabChars_append hcs hpart, kebabChars_cons_of_not_samePart (Ne.symm hd) hapart,
      ih hrest hparts hbounds]
    rfl

theorem intercalate_cons_eq_flatMap (part : List Char) (parts : List (List Char)) :
    ['-'].intercalate (part :: parts) = part ++ parts.flatMap ('-' :: ·) := by
  induction parts generalizing part with
  | nil => rw [List.intercalate_singleton, List.flatMap_nil, List.append_nil]
  | cons next parts ih =>
    rw [List.intercalate_cons_cons, ih, List.flatMap_cons, List.append_assoc]
    rfl

/-- In kebab case there are hyphens between the parts and nowhere else. -/
theorem kebabChars_eq_intercalate {cs : List Char} (h : '_' ∉ cs) :
    kebabChars none cs = ['-'].intercalate (kebabParts cs) := by
  have hflatten : (identifierParts cs).flatten = cs := List.flatten_splitBy samePart cs
  have hparts : ∀ part ∈ identifierParts cs, part.IsChain fun c d => samePart c d = true :=
    fun part hpart => List.isChain_of_mem_splitBy hpart
  have hsome : ∀ part ∈ identifierParts cs, part ≠ [] :=
    fun part hpart => List.ne_nil_of_mem_splitBy hpart
  have hbounds : (identifierParts cs).IsChain _ := List.isChain_getLast_head_splitBy samePart cs
  rw [kebabParts]
  cases hsplit : identifierParts cs with
  | nil =>
    rw [← hflatten, hsplit]
    rfl
  | cons part parts =>
    rw [hsplit] at hflatten hparts hbounds hsome
    obtain ⟨c, ds, rfl⟩ := List.exists_cons_of_ne_nil (hsome part List.mem_cons_self)
    rw [List.flatten_cons, List.cons_append] at hflatten
    rw [← hflatten] at h ⊢
    obtain ⟨hc, hrest⟩ := not_or.mp (mt List.mem_cons.mpr h)
    -- A capital in front is behind nothing and gets no hyphen.
    rw [kebabChars, if_neg (Ne.symm hc), endsPart, Bool.and_false, if_neg Bool.false_ne_true,
      kebabChars_append_flatten hrest hparts hbounds, List.map_cons, intercalate_cons_eq_flatMap,
      List.flatMap_map]
    rfl

/-! ## Kebab case -/

/-- A lower-case letter, and lower-case letters and digits behind it. -/
def IsKebabPart (part : List Char) : Prop :=
  part.head?.any Char.isLower = true ∧ ∀ c ∈ part, (c.isLower || c.isDigit) = true

instance (part : List Char) : Decidable (IsKebabPart part) := by
  unfold IsKebabPart; infer_instance

/-- Parts with hyphens between them. -/
def IsKebab (cs : List Char) : Prop := ∀ part ∈ cs.splitOn '-', IsKebabPart part

instance (cs : List Char) : Decidable (IsKebab cs) := by
  unfold IsKebab; infer_instance

namespace IsKebab

variable {cs : List Char} (h : IsKebab cs)
include h

theorem exists_parts : ∃ part parts, cs = part ++ parts.flatMap ('-' :: ·) ∧
    ∀ p ∈ part :: parts, IsKebabPart p := by
  obtain ⟨part, parts, hsplit⟩ := List.exists_cons_of_ne_nil (List.splitOn_ne_nil '-' cs)
  have hjoin := @List.intercalate_splitOn Char cs _ _ '-'
  rw [hsplit, intercalate_cons_eq_flatMap] at hjoin
  exact ⟨part, parts, hjoin.symm, fun p hp => h p (hsplit ▸ hp)⟩

theorem isLower_or_isDigit {c : Char} (hc : c ∈ cs) (hhyphen : c ≠ '-') :
    (c.isLower || c.isDigit) = true := by
  obtain ⟨part, parts, rfl, hparts⟩ := exists_parts h
  rw [List.mem_append, List.mem_flatMap] at hc
  rcases hc with hc | ⟨part', hpart', hc⟩
  · exact (hparts part List.mem_cons_self).2 c hc
  · have hmem := (List.mem_cons.mp hc).resolve_left hhyphen
    exact (hparts part' (List.mem_cons_of_mem part hpart')).2 c hmem

theorem exists_head : ∃ c, cs.head? = some c ∧ c.isLower = true := by
  obtain ⟨part, parts, rfl, hparts⟩ := exists_parts h
  obtain ⟨c, hc, hlower⟩ := (Option.any_eq_true _ _).mp (hparts part List.mem_cons_self).1
  refine ⟨c, ?_, hlower⟩
  rw [List.head?_append, hc]
  rfl

end IsKebab

theorem isLower_toLower {c : Char} (h : c.isUpper = true) : c.toLower.isLower = true := by
  rw [Char.isLower_toLower_eq_isAlpha, Char.isAlpha, h, Bool.true_or]

theorem isLower_or_isDigit_toLower {c : Char} (h : c.isAlphanum = true) :
    (c.toLower.isLower || c.toLower.isDigit) = true := by
  cases hupper : c.isUpper with
  | true => rw [isLower_toLower hupper, Bool.true_or]
  | false =>
    rw [Char.toLower_eq_of_not_isUpper (by rw [hupper]; exact Bool.false_ne_true)]
    rwa [Char.isAlphanum, Char.isAlpha, hupper, Bool.false_or] at h

section Identifiers

variable {cs : List Char} (h : ∀ c ∈ cs, c.isAlphanum = true)
include h

theorem isAlphanum_of_mem_identifierParts {part : List Char} (hpart : part ∈ identifierParts cs) :
    ∀ c ∈ part, c.isAlphanum = true := by
  intro c hc
  apply h c
  rw [← List.flatten_splitBy samePart cs]
  exact List.mem_flatten.mpr ⟨part, hpart, hc⟩

theorem isLower_or_isDigit_of_mem_kebabParts {part : List Char} (hpart : part ∈ kebabParts cs) :
    ∀ c ∈ part, (c.isLower || c.isDigit) = true := by
  obtain ⟨own, hown, rfl⟩ := List.mem_map.mp hpart
  intro c hc
  obtain ⟨d, hd, rfl⟩ := List.mem_map.mp hc
  exact isLower_or_isDigit_toLower (isAlphanum_of_mem_identifierParts h hown d hd)

theorem kebabChars_eq : kebabChars none cs = ['-'].intercalate (kebabParts cs) :=
  kebabChars_eq_intercalate fun hmem => absurd (h '_' hmem) (by decide)

/-- The parts of an identifier can be read off its kebab case. -/
theorem splitOn_kebabChars (hne : cs ≠ []) : (kebabChars none cs).splitOn '-' = kebabParts cs := by
  have hsome : kebabParts cs ≠ [] := by
    rw [kebabParts, ne_eq, List.map_eq_nil_iff]
    exact List.splitBy_ne_nil.mpr hne
  rw [kebabChars_eq h]
  refine List.splitOn_intercalate '-' (fun part hpart hhyphen => ?_) hsome
  exact absurd (isLower_or_isDigit_of_mem_kebabParts h hpart '-' hhyphen) (by decide)

end Identifiers

/-- Each part of a component name begins with a capital. -/
theorem isUpper_of_mem_identifierParts {cs : List Char} (h : IsComponentName cs)
    {part : List Char} (hpart : part ∈ identifierParts cs) :
    part.head?.any Char.isUpper = true := by
  have hbounds := List.isChain_getLast_head_splitBy samePart cs
  refine hbounds.induction (fun part => part.head?.any Char.isUpper = true) _ ?_ ?_ part hpart
  · rintro part part' ⟨_, hne, hapart⟩ _
    rw [samePart, Bool.not_eq_eq_eq_not, Bool.not_false, Bool.and_eq_true] at hapart
    rw [List.head?_eq_some_head hne]
    exact hapart.1
  · intro hsome
    have hne : cs ≠ [] := h.1.1
    have hhead := List.head_head_splitBy samePart hne
    have hupper := h.2
    rw [List.head?_eq_some_head hne, ← hhead] at hupper
    rw [List.head?_eq_some_head (List.ne_nil_of_mem_splitBy (List.head_mem hsome))]
    exact hupper

/-- A component name in kebab case is made of lower-case letters and digits in parts that each
begin with a letter. -/
theorem isKebab_kebabChars {cs : List Char} (h : IsComponentName cs) :
    IsKebab (kebabChars none cs) := by
  intro part hpart
  rw [splitOn_kebabChars h.1.2 h.1.1] at hpart
  refine ⟨?_, isLower_or_isDigit_of_mem_kebabParts h.1.2 hpart⟩
  obtain ⟨own, hown, rfl⟩ := List.mem_map.mp hpart
  obtain ⟨c, hc, hupper⟩ := (Option.any_eq_true _ _).mp (isUpper_of_mem_identifierParts h hown)
  rw [List.head?_map, hc]
  exact isLower_toLower hupper

theorem isKebab_kebabCase (raw : String) : IsKebab (kebabCase (componentName raw)).toList := by
  rw [kebabCase, String.toList_ofList]
  exact isKebab_kebabChars (isComponentName_componentName raw)

/-- Component names are the same in kebab case if and only if their parts are, the case of letters
aside. -/
theorem kebabCase_eq_iff (raw raw' : String) :
    kebabCase (componentName raw) = kebabCase (componentName raw') ↔
      kebabParts (componentName raw).toList = kebabParts (componentName raw').toList := by
  obtain ⟨⟨hne, hchars⟩, _⟩ := isComponentName_componentName raw
  obtain ⟨⟨hne', hchars'⟩, _⟩ := isComponentName_componentName raw'
  rw [kebabCase, kebabCase, String.ofList_inj]
  constructor
  · intro hsame
    rw [← splitOn_kebabChars hchars hne, hsame, splitOn_kebabChars hchars' hne']
  · intro hsame
    rw [kebabChars_eq hchars, hsame, kebabChars_eq hchars']

end DesignComponents
