import DesignComponents.Proofs.Markup.Escaping

/-!
# What escaping comes to

The replacements one after the other are a single pass over the characters. What it leaves holds
reserved characters only as the ampersands of entities, and the entities give the text back.
-/

namespace DesignComponents.Markup

theorem exists_entity_eq_cons {c : Char} (hc : c ∈ reservedInText .react) :
    ∃ name, entity c = '&' :: name ∧ '&' ∉ name := by
  simp only [reservedInText, reservedInValues, List.cons_append, List.nil_append, List.mem_cons,
    List.not_mem_nil, or_false] at hc
  rcases hc with rfl | rfl | rfl | rfl | rfl | rfl <;> exact ⟨_, rfl, by decide⟩

section

variable {reserved : List Char}

theorem entity_of_ampersand (hr : reserved ⊆ reservedInText .react) (ha : '&' ∈ reserved)
    {c : Char} {before behind : List Char}
    (h : (if c ∈ reserved then entity c else [c]) = before ++ '&' :: behind) :
    c ∈ reserved ∧ entity c = '&' :: behind := by
  by_cases hc : c ∈ reserved
  · obtain ⟨name, hentity, hname⟩ := exists_entity_eq_cons (hr hc)
    rw [if_pos hc, hentity] at h
    rw [hentity]
    cases before with
    | nil => exact ⟨hc, h⟩
    | cons d before =>
      have hrest : name = before ++ '&' :: behind := (List.cons.inj h).2
      exact absurd (by simp [hrest]) hname
  · rw [if_neg hc] at h
    have hmem : '&' ∈ [c] := by simp [h]
    exact absurd (List.mem_singleton.mp hmem ▸ ha) hc

/-- Wherever an ampersand stands in an escaped text, an entity stands. -/
theorem exists_entity_of_ampersand (hr : reserved ⊆ reservedInText .react)
    (ha : '&' ∈ reserved) {cs before behind : List Char}
    (h : escapeReserved reserved cs = before ++ '&' :: behind) :
    ∃ c ∈ reserved, entity c <+: '&' :: behind := by
  induction cs generalizing before with
  | nil => exact absurd h (by simp [escapeReserved])
  | cons c cs ih =>
    rw [escapeReserved_cons] at h
    rcases List.append_eq_append_iff.mp h with ⟨between, _, hrest⟩ | ⟨between, hwritten, hrest⟩
    · exact ih hrest
    · cases between with
      | nil =>
        rw [List.nil_append] at hrest
        exact @ih [] hrest.symm
      | cons d between =>
        obtain rfl : '&' = d := (List.cons.inj hrest).1
        obtain ⟨hc, hentity⟩ := entity_of_ampersand hr ha hwritten
        refine ⟨c, hc, escapeReserved reserved cs, ?_⟩
        rw [hentity, hrest]

end

/-- A way of writing texts that puts entities in the place of the reserved characters and loses
nothing by it. -/
structure WritesEntities (reserved : List Char) (write : String → String) : Prop where
  one_pass : ∀ s,
    (write s).toList = s.toList.flatMap fun c => if c ∈ reserved then entity c else [c]
  bare : ∀ s, ∀ c ∈ reserved, c ∈ (write s).toList → c = '&'
  entity_at : ∀ s before behind, (write s).toList = before ++ '&' :: behind →
    ∃ c ∈ reserved, entity c <+: '&' :: behind
  read_back : ∀ s, (unescape? reserved (write s).toList).map String.ofList = some s
  injective : Function.Injective write

theorem WritesEntities.of_one_pass {reserved : List Char} {write : String → String}
    (hr : reserved ⊆ reservedInText .react) (ha : '&' ∈ reserved)
    (h : ∀ s, (write s).toList = escapeReserved reserved s.toList) :
    WritesEntities reserved write := by
  have hread : ∀ s, (unescape? reserved (write s).toList).map String.ofList = some s := by
    intro s
    rw [h, unescape?_escapeReserved hr ha, Option.map_some, String.ofList_toList]
  refine ⟨h, ?_, ?_, hread, ?_⟩
  · intro s c hc hmem
    rw [h] at hmem
    by_cases hne : c = '&'
    · exact hne
    · exact absurd hmem (not_mem_escapeReserved hr hc hne s.toList)
  · intro s before behind hs
    rw [h] at hs
    exact exists_entity_of_ampersand hr ha hs
  · intro s t hst
    have hs := hread s
    rw [hst, hread t] at hs
    exact (Option.some.inj hs).symm

/-- Escaping writes the reserved characters of values as entities, and between tags those of
texts, braces among them where they open expressions. In both places it is one pass, no reserved
character is left but the ampersand that begins an entity, and reading the entities gives the
text back, so that different texts stay different. -/
theorem escaping_writes_entities :
    WritesEntities reservedInValues escape ∧
      ∀ f, WritesEntities (reservedInText f) (escapeText f) := by
  constructor
  · apply WritesEntities.of_one_pass (reservedInValues_subset .react) (by decide)
    intro s
    rw [escape, String.toList_ofList, escapeChars_eq]
  · intro f
    apply WritesEntities.of_one_pass (reservedInText_subset f)
      (reservedInValues_subset f (by decide))
    intro s
    rw [escapeText, String.toList_ofList, escapeTextChars_eq]

example : escape "&lt;\x7b" = "&amp;lt;\x7b" ∧
    escapeText .react "&lt;\x7b" = "&amp;lt;&#123;" := by
  decide

end DesignComponents.Markup
