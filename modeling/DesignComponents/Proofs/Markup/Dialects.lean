import DesignComponents.Proofs.Markup.Reading

/-!
# Dialects of markup

Frameworks write the same tags. What sets one apart from another is how it spells the names of
attributes and which characters of a text it writes in another way; the nesting of the tags, their
names and the values of their attributes are written alike. So the markup of an element for any
framework is that of its plain tags, written in the dialect of the framework.
-/

namespace DesignComponents

namespace Markup

/-- How names of attributes are spelled, and how the characters of a text that is escaped. -/
structure Dialect where
  attributeName : String → String
  textChar : Char → List Char

namespace Dialect

def plain : Dialect := ⟨id, fun c => [c]⟩

/-- A class goes by another name, and braces between tags are written as entities. -/
def react : Dialect where
  attributeName name := if name = "class" then "className" else name
  textChar c :=
    if c = '\x7b' then "&#123;".toList else if c = '\x7d' then "&#125;".toList else [c]

def of : Framework → Dialect
  | .react => react
  | .html | .vue | .angular => plain

def text (d : Dialect) (s : String) : List Char := (escapeChars s.toList).flatMap d.textChar

/-- The attribute under its name in the dialect. -/
def named (d : Dialect) (a : Attribute) : Attribute := ⟨d.attributeName a.name, a.value⟩

mutual

/-- Writes a tag with its attributes, the text in it and the tags in it, and closes it. -/
def write (d : Dialect) : Tag → List Char
  | .single name attributes =>
    '<' :: name.toList ++ attributeChars (attributes.map d.named) ++ [' ', '/', '>']
  | .around name attributes text content =>
    '<' :: name.toList ++ attributeChars (attributes.map d.named) ++ ['>'] ++
      d.text text ++ writeAll d content ++ '<' :: '/' :: name.toList ++ ['>']

def writeAll (d : Dialect) : List Tag → List Char
  | [] => []
  | t :: rest => write d t ++ writeAll d rest

end

mutual

def rename (d : Dialect) : Tag → Tag
  | .single name attributes => .single name (attributes.map d.named)
  | .around name attributes text content =>
    .around name (attributes.map d.named) text (renameAll d content)

def renameAll (d : Dialect) : List Tag → List Tag
  | [] => []
  | t :: rest => rename d t :: renameAll d rest

end

theorem of_of_ne_react {f : Framework} (hf : f ≠ .react) : of f = plain := by
  cases f with
  | react => exact absurd rfl hf
  | html | vue | angular => rfl

/-! ## Texts -/

theorem text_plain (s : String) : plain.text s = escapeChars s.toList := List.flatMap_singleton' _

/-- One brace after the other, or both in one pass. -/
theorem replaceChar_braces (cs : List Char) :
    replaceChar '\x7d' closeBrace (replaceChar '\x7b' openBrace cs) =
      cs.flatMap react.textChar := by
  induction cs with
  | nil => rfl
  | cons c cs ih =>
    have hcons : replaceChar '\x7b' openBrace (c :: cs) =
        (if c = '\x7b' then openBrace else [c]) ++ replaceChar '\x7b' openBrace cs := rfl
    rw [hcons, replaceChar_append, ih, List.flatMap_cons]
    congr 1
    by_cases ho : c = '\x7b'
    · subst ho
      decide
    · rw [if_neg ho, react]
      simp [replaceChar, closeBrace, ho]

theorem escapeTextChars_of (f : Framework) (s : String) :
    escapeTextChars f s.toList = (of f).text s := by
  cases f with
  | react => exact replaceChar_braces _
  | html | vue | angular => exact (text_plain s).symm

/-! ## Tags -/

mutual

/-- To write a tag in a dialect is to write the marks of the tag renamed. -/
theorem marksText_rename (f : Framework) :
    (t : Tag) → marksText f (rename (of f) t).marks = write (of f) t
  | .single name as => by
    simp only [rename, Tag.marks, write, marksText, List.flatMap_singleton, Mark.chars,
      List.cons_append]
  | .around name as text content => by
    have hcontent := marksText_renameAll f content
    simp only [rename, Tag.marks, write, marksText, List.flatMap_cons, List.flatMap_append,
      List.flatMap_nil, Mark.chars, escapeTextChars_of] at hcontent ⊢
    rw [hcontent]
    simp only [List.cons_append, List.append_assoc, List.nil_append]

theorem marksText_renameAll (f : Framework) :
    (ts : List Tag) → marksText f (Tag.marksOf (renameAll (of f) ts)) = writeAll (of f) ts
  | [] => rfl
  | t :: ts => by
    rw [renameAll, Tag.marksOf, marksText_append, writeAll, marksText_rename f t,
      marksText_renameAll f ts]

end

end Dialect

end Markup

/-! ## Elements -/

namespace Element

open Markup

theorem named_classAttribute (f : Framework) (value : String) :
    (Dialect.of f).named ⟨Framework.html.classAttribute, value⟩ = ⟨f.classAttribute, value⟩ := by
  cases f <;> rfl

mutual

/-- The tag for a framework is the plain tag with attributes named as in its dialect. -/
theorem tag_eq_rename (f : Framework) : (e : Element) → e.tag f = (Dialect.of f).rename (e.tag .html)
  | image _ _ | imageContainer _ _ | text _ _ | label _ _ | input _ _ | reference _ => by
    cases f <;> rfl
  | table heads cells => by
    simp only [tag, rowTag, Dialect.rename, Dialect.renameAll, List.map_cons, List.map_nil,
      named_classAttribute, tags_eq_renameAll f heads, tags_eq_renameAll f cells]
  | headingCell content c | dataCell content c | container content c => by
    simp only [tag, classAttribute, Dialect.rename, List.map_cons, List.map_nil,
      named_classAttribute, tags_eq_renameAll f content]

theorem tags_eq_renameAll (f : Framework) :
    (es : List Element) → tags f es = (Dialect.of f).renameAll (tags .html es)
  | [] => rfl
  | e :: es => by
    rw [tags, tags, Dialect.renameAll, tag_eq_rename f e, tags_eq_renameAll f es]

end

theorem tags_of_ne_react {f : Framework} (hf : f ≠ .react) (es : List Element) :
    tags f es = tags .html es := by
  rw [tags_eq_renameAll f, Dialect.of_of_ne_react hf]
  exact (tags_eq_renameAll .html es).symm

/-- For every framework the markup of an element is that of its plain tags in the dialect of the
framework. -/
theorem toList_markup_eq_write (f : Framework) {e? : Option Element} (h : ∀ e ∈ e?, e.Legible) :
    ((e?.map (·.markup f)).getD "").toList =
      (Dialect.of f).writeAll (tags .html e?.toList) := by
  rw [toList_markup_getD f h, tags_eq_renameAll, Dialect.marksText_renameAll]

end Element

end DesignComponents
