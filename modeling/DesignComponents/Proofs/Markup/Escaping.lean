import DesignComponents.Markup.Escape

/-!
# Entities read back

The replacements that escape a text, one whole pass for each character, come to one pass that
puts an entity in the place of every reserved character. Reading entities undoes that pass.
Which characters are reserved depends on the place: between the tags of a framework that has
expressions, braces are.
-/

namespace DesignComponents.Markup

def entity (c : Char) : List Char :=
  if c = '&' then ampersand
  else if c = '<' then less
  else if c = '>' then greater
  else if c = '"' then quote
  else if c = '\x7b' then openBrace
  else if c = '\x7d' then closeBrace
  else [c]

/-- The characters that stand for themselves nowhere. -/
def reservedInValues : List Char := ['&', '<', '>', '"']

/-- The characters that do not stand for themselves between tags. -/
def reservedInText : Framework → List Char
  | .react => reservedInValues ++ ['\x7b', '\x7d']
  | _ => reservedInValues

/-- One pass that writes the reserved characters as entities. -/
def escapeReserved (reserved cs : List Char) : List Char :=
  cs.flatMap fun c => if c ∈ reserved then entity c else [c]

theorem escapeReserved_cons (reserved : List Char) (c : Char) (cs : List Char) :
    escapeReserved reserved (c :: cs) =
      (if c ∈ reserved then entity c else [c]) ++ escapeReserved reserved cs :=
  List.flatMap_cons

/-- Reads entities. A reserved character that stands for itself, and an ampersand without an
entity behind it, make the text unreadable. -/
def unescape? (reserved : List Char) : List Char → Option (List Char)
  | [] => some []
  | '&' :: 'a' :: 'm' :: 'p' :: ';' :: cs => (unescape? reserved cs).map ('&' :: ·)
  | '&' :: 'l' :: 't' :: ';' :: cs => (unescape? reserved cs).map ('<' :: ·)
  | '&' :: 'g' :: 't' :: ';' :: cs => (unescape? reserved cs).map ('>' :: ·)
  | '&' :: 'q' :: 'u' :: 'o' :: 't' :: ';' :: cs => (unescape? reserved cs).map ('"' :: ·)
  | '&' :: '#' :: '1' :: '2' :: '3' :: ';' :: cs => (unescape? reserved cs).map ('\x7b' :: ·)
  | '&' :: '#' :: '1' :: '2' :: '5' :: ';' :: cs => (unescape? reserved cs).map ('\x7d' :: ·)
  | c :: cs => if c ∈ reserved then none else (unescape? reserved cs).map (c :: ·)

theorem unescape?_cons {reserved : List Char} {c : Char} (hc : c ∉ reserved) (ha : c ≠ '&')
    (cs : List Char) : unescape? reserved (c :: cs) = (unescape? reserved cs).map (c :: ·) := by
  rw [unescape?.eq_def]
  split <;> simp_all

theorem unescape?_entity {reserved : List Char} {c : Char} (hc : c ∈ reservedInText .react)
    (cs : List Char) :
    unescape? reserved (entity c ++ cs) = (unescape? reserved cs).map (c :: ·) := by
  simp only [reservedInText, reservedInValues, List.cons_append, List.nil_append, List.mem_cons,
    List.not_mem_nil, or_false] at hc
  rcases hc with rfl | rfl | rfl | rfl | rfl | rfl <;> rfl

theorem reservedInText_subset (f : Framework) : reservedInText f ⊆ reservedInText .react := by
  cases f <;> decide

theorem reservedInValues_subset (f : Framework) : reservedInValues ⊆ reservedInText f := by
  cases f <;> decide

theorem unescape?_escapeReserved {reserved : List Char} (hr : reserved ⊆ reservedInText .react)
    (ha : '&' ∈ reserved) (cs : List Char) :
    unescape? reserved (escapeReserved reserved cs) = some cs := by
  induction cs with
  | nil => rfl
  | cons c cs ih =>
    rw [escapeReserved_cons]
    by_cases hc : c ∈ reserved
    · rw [if_pos hc, unescape?_entity (hr hc), ih]
      rfl
    · have hne : c ≠ '&' := fun h => hc (h ▸ ha)
      rw [if_neg hc, List.singleton_append, unescape?_cons hc hne, ih]
      rfl

/-- No entity holds a reserved character besides its ampersand. -/
theorem not_mem_entity {reserved : List Char} (hr : reserved ⊆ reservedInText .react) {c d : Char}
    (hd : d ∈ reserved) (hne : d ≠ '&') (hc : c ∈ reserved) : d ∉ entity c := by
  have hd' := hr hd
  have hc' := hr hc
  simp only [reservedInText, reservedInValues, List.cons_append, List.nil_append, List.mem_cons,
    List.not_mem_nil, or_false] at hd' hc'
  rcases hd' with rfl | hd'
  · exact absurd rfl hne
  · rcases hc' with rfl | rfl | rfl | rfl | rfl | rfl <;>
      rcases hd' with rfl | rfl | rfl | rfl | rfl <;> decide

theorem not_mem_escapeReserved {reserved : List Char} (hr : reserved ⊆ reservedInText .react)
    {d : Char} (hd : d ∈ reserved) (hne : d ≠ '&') (cs : List Char) :
    d ∉ escapeReserved reserved cs := by
  intro h
  obtain ⟨c, _, hc⟩ := List.mem_flatMap.mp h
  split at hc
  · rename_i hcr
    exact not_mem_entity hr hd hne hcr hc
  · rename_i hcr
    exact hcr (List.mem_singleton.mp hc ▸ hd)

/-! ## The replacements as one pass -/

theorem replaceChar_append (c : Char) (by_ xs ys : List Char) :
    replaceChar c by_ (xs ++ ys) = replaceChar c by_ xs ++ replaceChar c by_ ys :=
  List.flatMap_append

theorem escapeChars_append (xs ys : List Char) :
    escapeChars (xs ++ ys) = escapeChars xs ++ escapeChars ys := by
  simp only [escapeChars, replaceChar_append]

theorem replaceChar_singleton {c d : Char} (h : d ≠ c) (by_ : List Char) :
    replaceChar c by_ [d] = [d] := by
  simp [replaceChar, h]

theorem escapeChars_singleton (c : Char) :
    escapeChars [c] = if c ∈ reservedInValues then entity c else [c] := by
  by_cases hc : c ∈ reservedInValues
  · rw [if_pos hc]
    simp only [reservedInValues, List.mem_cons, List.not_mem_nil, or_false] at hc
    rcases hc with rfl | rfl | rfl | rfl <;> decide
  · rw [if_neg hc]
    simp only [reservedInValues, List.mem_cons, List.not_mem_nil, or_false, not_or] at hc
    obtain ⟨ha, hl, hg, hq⟩ := hc
    rw [escapeChars, replaceChar_singleton ha, replaceChar_singleton hl, replaceChar_singleton hg,
      replaceChar_singleton hq]

theorem escapeChars_eq (cs : List Char) : escapeChars cs = escapeReserved reservedInValues cs := by
  induction cs with
  | nil => rfl
  | cons c cs ih =>
    rw [← List.singleton_append, escapeChars_append, escapeChars_singleton, ih,
      List.singleton_append, escapeReserved_cons]

theorem escapeTextChars_append (f : Framework) (xs ys : List Char) :
    escapeTextChars f (xs ++ ys) = escapeTextChars f xs ++ escapeTextChars f ys := by
  cases f <;> simp only [escapeTextChars, escapeChars_append, replaceChar_append]

theorem escapeTextChars_singleton (f : Framework) (c : Char) :
    escapeTextChars f [c] = if c ∈ reservedInText f then entity c else [c] := by
  by_cases hf : f = .react
  · subst hf
    by_cases hc : c ∈ reservedInText .react
    · rw [if_pos hc]
      simp only [reservedInText, reservedInValues, List.cons_append, List.nil_append,
        List.mem_cons, List.not_mem_nil, or_false] at hc
      rcases hc with rfl | rfl | rfl | rfl | rfl | rfl <;> decide
    · rw [if_neg hc]
      simp only [reservedInText, List.mem_append, List.mem_cons, List.not_mem_nil, or_false,
        not_or] at hc
      obtain ⟨hv, ho, hcl⟩ := hc
      rw [escapeTextChars, escapeChars_singleton, if_neg hv, replaceChar_singleton ho,
        replaceChar_singleton hcl]
  · have hr : reservedInText f = reservedInValues := by cases f <;> trivial
    have he : escapeTextChars f [c] = escapeChars [c] := by cases f <;> trivial
    rw [hr, he, escapeChars_singleton]

theorem escapeTextChars_eq (f : Framework) (cs : List Char) :
    escapeTextChars f cs = escapeReserved (reservedInText f) cs := by
  induction cs with
  | nil => cases f <;> rfl
  | cons c cs ih =>
    rw [← List.singleton_append, escapeTextChars_append, escapeTextChars_singleton, ih,
      List.singleton_append, escapeReserved_cons]

/-! ## Values and texts -/

theorem unescape?_escapeChars (cs : List Char) :
    unescape? reservedInValues (escapeChars cs) = some cs := by
  rw [escapeChars_eq]
  exact unescape?_escapeReserved (reservedInValues_subset .react) (by decide) cs

theorem unescape?_escapeTextChars (f : Framework) (cs : List Char) :
    unescape? (reservedInText f) (escapeTextChars f cs) = some cs := by
  rw [escapeTextChars_eq]
  exact unescape?_escapeReserved (reservedInText_subset f)
    (reservedInValues_subset f (by decide)) cs

theorem not_mem_escapeChars {d : Char} (hd : d ∈ reservedInValues) (hne : d ≠ '&')
    (cs : List Char) : d ∉ escapeChars cs := by
  rw [escapeChars_eq]
  exact not_mem_escapeReserved (reservedInValues_subset .react) hd hne cs

theorem not_mem_escapeTextChars {f : Framework} {d : Char} (hd : d ∈ reservedInText f)
    (hne : d ≠ '&') (cs : List Char) : d ∉ escapeTextChars f cs := by
  rw [escapeTextChars_eq]
  exact not_mem_escapeReserved (reservedInText_subset f) hd hne cs

theorem escapeChars_of_forall_not_mem {cs : List Char} (h : ∀ c ∈ cs, c ∉ reservedInValues) :
    escapeChars cs = cs := by
  rw [escapeChars_eq]
  induction cs with
  | nil => rfl
  | cons c cs ih =>
    rw [escapeReserved_cons, if_neg (h c List.mem_cons_self), ih fun d hd => h d (List.mem_cons_of_mem c hd)]
    rfl

end DesignComponents.Markup
