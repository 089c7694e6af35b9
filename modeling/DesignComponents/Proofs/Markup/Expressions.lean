import DesignComponents.Proofs.Markup.Reading

/-!
# Expressions in markup

A framework may read an expression between the tags of a template and show its value. What stands
between the tags of a component is the texts and labels of its element, escaped. For a framework
where one brace opens an expression they never open one, since braces are escaped. Where two braces
do, which are not, they open one exactly if a text or a label has two braces in a row.
-/

namespace DesignComponents

/-- Whether what stands between tags opens an expression, or closes one that was never opened. -/
def Framework.OpensExpression (f : Framework) (content : List Char) : Prop :=
  match f with
  | .html => False
  | .react => '\x7b' ∈ content ∨ '\x7d' ∈ content
  | .vue | .angular => ['\x7b', '\x7b'] <:+: content

theorem Framework.not_opensExpression_nil (f : Framework) : ¬f.OpensExpression [] := by
  cases f <;> simp [OpensExpression]

namespace Markup

/-! ## Escaped texts -/

theorem escapeChars_cons (c : Char) (cs : List Char) :
    escapeChars (c :: cs) =
      (if c ∈ reservedInValues then entity c else [c]) ++ escapeChars cs := by
  rw [← escapeChars_singleton, ← escapeChars_append, List.singleton_append]

/-- An entity begins with an ampersand and has no brace in it. -/
theorem entity_of_reserved {c : Char} (hc : c ∈ reservedInValues) :
    ∃ rest, entity c = '&' :: rest ∧ '\x7b' ∉ '&' :: rest := by
  simp only [reservedInValues, List.mem_cons, List.not_mem_nil, or_false] at hc
  rcases hc with rfl | rfl | rfl | rfl <;> exact ⟨_, rfl, by decide⟩

theorem ne_brace_of_reserved {c : Char} (hc : c ∈ reservedInValues) : c ≠ '\x7b' := by
  rintro rfl
  exact absurd hc (by decide)

theorem brace_prefix_cons_iff {c : Char} (hc : c ≠ '\x7b') (rest cs : List Char) :
    '\x7b' :: rest <+: c :: cs ↔ False := by
  rw [List.cons_prefix_cons]
  exact iff_false_intro fun h => hc h.1.symm

/-- What has no brace in it is no part of two braces in a row. -/
theorem braces_infix_append_iff {front : List Char} (hfront : '\x7b' ∉ front) (cs : List Char) :
    ['\x7b', '\x7b'] <:+: front ++ cs ↔ ['\x7b', '\x7b'] <:+: cs := by
  induction front with
  | nil => rfl
  | cons c front ih =>
    obtain ⟨hc, hfront⟩ := not_or.mp (mt List.mem_cons.mpr hfront)
    rw [List.cons_append, List.infix_cons_iff, brace_prefix_cons_iff (Ne.symm hc), ih hfront,
      false_or]

theorem brace_prefix_escapeChars_iff (cs : List Char) :
    ['\x7b'] <+: escapeChars cs ↔ ['\x7b'] <+: cs := by
  cases cs with
  | nil => rfl
  | cons c cs =>
    rw [escapeChars_cons]
    by_cases hc : c ∈ reservedInValues
    · obtain ⟨rest, hentity, _⟩ := entity_of_reserved hc
      rw [if_pos hc, hentity, List.cons_append, brace_prefix_cons_iff (by decide),
        brace_prefix_cons_iff (ne_brace_of_reserved hc)]
    · rw [if_neg hc, List.singleton_append, List.cons_prefix_cons, List.cons_prefix_cons]
      simp only [List.nil_prefix]

/-- Two braces in a row are neither brought about by escaping nor taken away. -/
theorem braces_infix_escapeChars_iff (cs : List Char) :
    ['\x7b', '\x7b'] <:+: escapeChars cs ↔ ['\x7b', '\x7b'] <:+: cs := by
  induction cs with
  | nil => rfl
  | cons c cs ih =>
    rw [escapeChars_cons, List.infix_cons_iff]
    by_cases hc : c ∈ reservedInValues
    · obtain ⟨rest, hentity, hbrace⟩ := entity_of_reserved hc
      rw [if_pos hc, hentity, braces_infix_append_iff hbrace, ih,
        brace_prefix_cons_iff (ne_brace_of_reserved hc), false_or]
    · rw [if_neg hc, List.singleton_append, List.infix_cons_iff, ih, List.cons_prefix_cons,
        List.cons_prefix_cons, brace_prefix_escapeChars_iff]

theorem escapeTextChars_nil (f : Framework) : escapeTextChars f [] = [] := by
  cases f <;> rfl

/-- An escaped text opens an expression if and only if two braces open one and the text has two
braces in a row. -/
theorem opensExpression_escapeTextChars_iff (f : Framework) (cs : List Char) :
    f.OpensExpression (escapeTextChars f cs) ↔
      (f = .vue ∨ f = .angular) ∧ ['\x7b', '\x7b'] <:+: cs := by
  cases f with
  | html => simp [Framework.OpensExpression]
  | react =>
    have hopen : '\x7b' ∉ escapeTextChars .react cs :=
      not_mem_escapeTextChars (by decide) (by decide) cs
    have hclose : '\x7d' ∉ escapeTextChars .react cs :=
      not_mem_escapeTextChars (by decide) (by decide) cs
    simp [Framework.OpensExpression, hopen, hclose]
  | vue | angular => simp [Framework.OpensExpression, escapeTextChars, braces_infix_escapeChars_iff]

/-! ## Between tags -/

/-- What stands behind each tag of a markup up to the next, as it is written. -/
def contents (markup : List Char) : List (List Char) :=
  (markup.splitOn '<').map fun part => (part.dropWhile (· ≠ '>')).drop 1

namespace Mark

def text : Mark → String
  | opening _ _ text => text
  | single .. | closing _ => ""

@[simp] theorem text_opening (name : String) (as : List Attribute) (text : String) :
    (opening name as text).text = text := rfl

@[simp] theorem text_single (name : String) (as : List Attribute) : (single name as).text = "" :=
  rfl

@[simp] theorem text_closing (name : String) : (closing name).text = "" := rfl

theorem drop_dropWhile_inside {inside : List Char} (hinside : '>' ∉ inside) (behind : List Char) :
    ((inside ++ '>' :: behind).dropWhile (· ≠ '>')).drop 1 = behind := by
  have hpass : ∀ c ∈ inside, decide (c ≠ '>') = true := by
    intro c hc
    exact decide_eq_true fun heq => hinside (heq ▸ hc)
  rw [List.dropWhile_append_of_pos hpass]
  rfl

theorem behind_chars (f : Framework) {m : Mark} (hm : m.Named) :
    ((m.chars f).dropWhile (· ≠ '>')).drop 1 = escapeTextChars f m.text.toList := by
  have hbracket : IsBracket '>' := .inr rfl
  cases m with
  | single name as =>
    have hname : '>' ∉ name.toList := hm.1.not_mem hbracket.isAlphanum
    have has : '>' ∉ attributeChars as := not_mem_attributeChars hm.2 hbracket
    have hchars : (single name as).chars f =
        (name.toList ++ attributeChars as ++ [' ', '/']) ++ '>' :: [] := by simp [chars]
    rw [hchars, drop_dropWhile_inside (by simp [hname, has])]
    exact (escapeTextChars_nil f).symm
  | opening name as text =>
    have hname : '>' ∉ name.toList := hm.1.not_mem hbracket.isAlphanum
    have has : '>' ∉ attributeChars as := not_mem_attributeChars hm.2 hbracket
    exact drop_dropWhile_inside (by simp [hname, has]) _
  | closing name =>
    have hname : '>' ∉ name.toList := hm.not_mem hbracket.isAlphanum
    have hinside : '>' ∉ '/' :: name.toList := by simp [hname]
    exact (drop_dropWhile_inside hinside []).trans (escapeTextChars_nil f).symm

end Mark

theorem contents_marksText (f : Framework) {marks : List Mark} (h : ∀ m ∈ marks, m.Named) :
    contents (marksText f marks) =
      [] :: marks.map fun m => escapeTextChars f m.text.toList := by
  have hsplit := splitOn_marksText f h [] List.not_mem_nil
  rw [List.nil_append] at hsplit
  rw [contents, hsplit, List.map_cons, List.map_map]
  congr 1
  exact List.map_congr_left fun m hm => Mark.behind_chars f (h m hm)

theorem exists_contents_iff (f : Framework) {marks : List Mark} (h : ∀ m ∈ marks, m.Named)
    {P : List Char → Prop} (hnil : ¬P []) :
    (∃ content ∈ contents (marksText f marks), P content) ↔
      ∃ m ∈ marks, P (escapeTextChars f m.text.toList) := by
  rw [contents_marksText f h]
  constructor
  · rintro ⟨content, hcontent, hP⟩
    rcases List.mem_cons.mp hcontent with rfl | hcontent
    · exact absurd hP hnil
    · obtain ⟨m, hm, rfl⟩ := List.mem_map.mp hcontent
      exact ⟨m, hm, hP⟩
  · rintro ⟨m, hm, hP⟩
    exact ⟨_, List.mem_cons_of_mem _ (List.mem_map_of_mem hm), hP⟩

end Markup

/-! ## Texts of elements -/

namespace Element

open Markup

mutual

/-- The texts and labels that the element shows, in reading order. -/
def texts : Element → List String
  | text content _ | label content _ => [content]
  | table heads cells => textsOf heads ++ textsOf cells
  | headingCell content _ | dataCell content _ | container content _ => textsOf content
  | image .. | imageContainer .. | input .. | reference _ => []

def textsOf : List Element → List String
  | [] => []
  | e :: rest => texts e ++ textsOf rest

end

section Marks

variable {P : String → Prop}

theorem exists_text_marksOf_cons_iff (t : Tag) (ts : List Tag) :
    (∃ m ∈ Tag.marksOf (t :: ts), P m.text) ↔
      (∃ m ∈ t.marks, P m.text) ∨ ∃ m ∈ Tag.marksOf ts, P m.text := by
  simp [Tag.marksOf, or_and_right, exists_or]

theorem exists_text_marksOf_nil_iff : (∃ m ∈ Tag.marksOf [], P m.text) ↔ False := by
  simp [Tag.marksOf]

theorem exists_text_around_iff (hempty : ¬P "") (name : String) (as : List Attribute) (text : String)
    (content : List Tag) :
    (∃ m ∈ (Tag.around name as text content).marks, P m.text) ↔
      P text ∨ ∃ m ∈ Tag.marksOf content, P m.text := by
  simp [Tag.marks, or_and_right, exists_or, hempty]

mutual

/-- The texts in the tags of an element are its texts and labels, empty ones aside. -/
theorem exists_text_marks_iff (hempty : ¬P "") (f : Framework) : (e : Element) →
    ((∃ m ∈ (e.tag f).marks, P m.text) ↔ ∃ text ∈ e.texts, P text)
  | image _ _ | input _ _ | reference _ => by simp [tag, Tag.marks, texts, hempty]
  | imageContainer _ _ => by
    simp [tag, Tag.marksOf, Tag.marks, texts, hempty]
  | text content _ | label content _ => by
    simp only [tag, exists_text_around_iff hempty, exists_text_marksOf_nil_iff, or_false, texts,
      List.mem_singleton, exists_eq_left]
  | table heads cells => by
    simp only [tag, rowTag, exists_text_around_iff hempty, exists_text_marksOf_cons_iff,
      exists_text_marksOf_nil_iff, exists_text_marksOf_iff hempty f heads,
      exists_text_marksOf_iff hempty f cells, hempty, false_or, or_false, texts, List.mem_append,
      or_and_right, exists_or]
  | headingCell content _ | dataCell content _ | container content _ => by
    simp only [tag, exists_text_around_iff hempty, exists_text_marksOf_iff hempty f content, hempty,
      false_or, texts]

theorem exists_text_marksOf_iff (hempty : ¬P "") (f : Framework) : (es : List Element) →
    ((∃ m ∈ Tag.marksOf (tags f es), P m.text) ↔ ∃ text ∈ textsOf es, P text)
  | [] => by simp [tags, Tag.marksOf, textsOf]
  | e :: es => by
    rw [tags, exists_text_marksOf_cons_iff, exists_text_marks_iff hempty f e,
      exists_text_marksOf_iff hempty f es]
    simp only [textsOf, List.mem_append, or_and_right, exists_or]

end

end Marks

/-- What stands between the tags of a markup opens an expression if and only if two braces open
one and a text or label has two braces in a row. -/
theorem exists_opensExpression_iff (f : Framework) {e? : Option Element}
    (h : ∀ e ∈ e?, e.Legible) :
    (∃ content ∈ contents ((e?.map (·.markup f)).getD "").toList, f.OpensExpression content) ↔
      (f = .vue ∨ f = .angular) ∧
        ∃ text ∈ textsOf e?.toList, ['\x7b', '\x7b'] <:+: text.toList := by
  have hnamed : Tag.NamedAll (tags f e?.toList) := by
    cases e? with
    | none => exact Tag.namedAll_nil
    | some e => exact Tag.namedAll_cons (named_tag f e (h e rfl)) Tag.namedAll_nil
  have hempty : ¬f.OpensExpression (escapeTextChars f "".toList) := by
    rw [String.toList_empty, escapeTextChars_nil]
    exact f.not_opensExpression_nil
  have htexts := exists_text_marksOf_iff
    (P := fun text => f.OpensExpression (escapeTextChars f text.toList)) hempty f e?.toList
  rw [toList_markup_getD f h, exists_contents_iff f hnamed f.not_opensExpression_nil, htexts]
  simp only [opensExpression_escapeTextChars_iff]
  constructor
  · rintro ⟨text, htext, hf, hbraces⟩
    exact ⟨hf, text, htext, hbraces⟩
  · rintro ⟨hf, text, htext, hbraces⟩
    exact ⟨text, htext, hf, hbraces⟩

end Element

end DesignComponents
