import DesignComponents.Proofs.Conversion.Undisturbed
import DesignComponents.Proofs.Markup.Dialects
import DesignComponents.Proofs.Markup.Expressions

/-!
# One design for all frameworks

Where no component is reused a design is converted to the same element for every framework, so
that all markup is one tree of tags in different dialects. Its texts and labels are what stands
between the tags. For some frameworks a text with two braces in a row opens an expression there.
-/

namespace DesignComponents

open Element Markup

/-- Where nothing is referred to it does not matter which components there are. -/
theorem Node.shown_of_no_references {reference? address? : Layer → Option String} {n : Node}
    (h : referencesOf (n.shown reference? address?).toList = []) :
    n.shown reference? address? = n.shown (fun _ => none) address? := by
  refine (shown_congr_of_visits address? ?_).symm
  intro v hv hvisible
  cases hname : reference? v.layer with
  | none => rfl
  | some name =>
    have hrole := Layer.roleWith_eq_reference_iff.mpr ⟨hvisible, hname⟩
    have hmem := (mem_references_iff_visits reference? address? name n).mpr ⟨v, hv, hrole⟩
    rw [h] at hmem
    cases hmem

namespace Conversion

variable (source : Source) (o : Options) (catalogue : Catalogue) (fileKey : String) (root : Node)

/-- Without imports a design is converted to what it shows by itself. -/
theorem element_of_no_imports (h : (ofRoot source o catalogue fileKey root).1.imports = []) :
    (ofRoot source o catalogue fileKey root).1.element =
      root.inReadingOrder.shown (fun _ => none) (source.addressIn fileKey) := by
  have hreferences := eq_nil_of_eraseDups_eq_nil
    ((imports_ofRoot source o catalogue fileKey root).symm.trans h)
  have helement : (ofRoot source o catalogue fileKey root).1.element =
      ((walk source o catalogue fileKey root).render root.inReadingOrder .empty).1 := by
    rw [ofRoot_eq]
    rfl
  rw [helement, ← Walk.shown_of_render] at hreferences ⊢
  exact Node.shown_of_no_references hreferences

theorem name_ofRoot :
    (ofRoot source o catalogue fileKey root).1.name = componentName root.layer.displayName := by
  rw [ofRoot_eq]
  rfl

theorem markup_eq_write :
    ((ofRoot source o catalogue fileKey root).1.markup o.framework).toList =
      (Dialect.of o.framework).writeAll
        (tags .html (ofRoot source o catalogue fileKey root).1.element.toList) :=
  toList_markup_eq_write o.framework (legible_ofRoot source o catalogue fileKey root)

/-- Where nothing is reused a design has the same name and the same element for all frameworks.
The markup is the same text for all of them but one: for that one it is the same tags again, with
classes under another name and the braces of texts and labels as entities. -/
theorem frameworks_agree {o o' : Options} {catalogue catalogue' : Catalogue}
    (h : (ofRoot source o catalogue fileKey root).1.imports = [])
    (h' : (ofRoot source o' catalogue' fileKey root).1.imports = []) :
    let c := (ofRoot source o catalogue fileKey root).1
    let c' := (ofRoot source o' catalogue' fileKey root).1
    c'.name = c.name ∧ c'.element = c.element ∧
      (o.framework ≠ .react → o'.framework ≠ .react →
        c'.markup o'.framework = c.markup o.framework) ∧
      (o.framework ≠ .react → o'.framework = .react →
        ∃ tags, readTags o.framework (c.markup o.framework) = some tags ∧
          (c.markup o.framework).toList = Dialect.plain.writeAll tags ∧
          (c'.markup o'.framework).toList = Dialect.react.writeAll tags) := by
  intro c c'
  have helement : c'.element = c.element := by
    rw [element_of_no_imports source o' catalogue' fileKey root h',
      element_of_no_imports source o catalogue fileKey root h]
  have hwrite : (c.markup o.framework).toList =
      (Dialect.of o.framework).writeAll (tags .html c.element.toList) :=
    markup_eq_write source o catalogue fileKey root
  have hwrite' : (c'.markup o'.framework).toList =
      (Dialect.of o'.framework).writeAll (tags .html c.element.toList) := by
    rw [← helement]
    exact markup_eq_write source o' catalogue' fileKey root
  refine ⟨?_, helement, ?_, ?_⟩
  · exact (name_ofRoot source o' catalogue' fileKey root).trans
      (name_ofRoot source o catalogue fileKey root).symm
  · intro hf hf'
    rw [Dialect.of_of_ne_react hf] at hwrite
    rw [Dialect.of_of_ne_react hf'] at hwrite'
    exact String.toList_inj.mp (hwrite'.trans hwrite.symm)
  · intro hf hf'
    have hread := readTags_getD o.framework (legible_ofRoot source o catalogue fileKey root)
    rw [tags_of_ne_react hf] at hread
    rw [Dialect.of_of_ne_react hf] at hwrite
    rw [hf'] at hwrite' ⊢
    exact ⟨_, hread, hwrite, hwrite'⟩

/-! ## A page with braces -/

/-- A layer with characters in it. -/
def textLayer (id name characters : String) : Layer :=
  { bareLayer id name .text true with characters := some characters }

/-- A text, a label and an input within a frame, each with braces. -/
def pageWithBraces : Node :=
  .mk (bareLayer "1:1" "Page" .frame true)
    [.mk (bareLayer "1:2" "Inner" .frame true)
      [.mk (textLayer "1:3" "hint" "class \x7bx\x7d") [],
        .mk (bareLayer "1:4" "label-a" .frame true) [.mk (textLayer "1:5" "a < \x7b" "") []],
        .mk (bareLayer "1:6" "input-b" .frame true) [.mk (textLayer "1:7" "b" "\x7by\x7d") []]]]

theorem inReadingOrder_pageWithBraces : pageWithBraces.inReadingOrder = pageWithBraces := by
  simp [pageWithBraces, Node.inReadingOrder]

def optionsFor (f : Framework) : Options := ⟨f, f.extension false, true, none⟩

def pageWithBracesFor (f : Framework) : Conversion :=
  (ofRoot (sourceOf pageWithBraces) (optionsFor f) (Shelf.store.catalogue [] (optionsFor f)) "FILE"
    pageWithBraces).1

theorem imports_pageWithBracesFor (f : Framework) : (pageWithBracesFor f).imports = [] := by
  simp only [pageWithBracesFor, ofRoot, inReadingOrder_pageWithBraces]
  cases f <;> decide +kernel

/-- The page is the same text for two frameworks, and the same tags for a third. -/
theorem page_with_braces_in_frameworks :
    (∀ f, (pageWithBracesFor f).imports = []) ∧
      (pageWithBracesFor .vue).markup .vue = (pageWithBracesFor .angular).markup .angular ∧
      (∃ tags, readTags .vue ((pageWithBracesFor .vue).markup .vue) = some tags ∧
        ((pageWithBracesFor .react).markup .react).toList = Dialect.react.writeAll tags) ∧
      (pageWithBracesFor .vue).markup .vue =
        "<div class=\"\"><div class=\"\"><p class=\"\">class \x7bx\x7d</p>" ++
          "<label class=\"\">a &lt; \x7b</label>" ++
          "<input type=\"text\" placeholder=\"\x7by\x7d\" class=\"focus:outline-none\" />" ++
          "</div></div>" ∧
      (pageWithBracesFor .react).markup .react =
        "<div className=\"\"><div className=\"\"><p className=\"\">class &#123;x&#125;</p>" ++
          "<label className=\"\">a &lt; &#123;</label>" ++
          "<input type=\"text\" placeholder=\"\x7by\x7d\" className=\"focus:outline-none\" />" ++
          "</div></div>" := by
  have hvue := imports_pageWithBracesFor .vue
  obtain ⟨_, _, hsame, _⟩ := frameworks_agree (sourceOf pageWithBraces) "FILE" pageWithBraces
    (imports_pageWithBracesFor .angular) hvue
  obtain ⟨_, _, _, hother⟩ := frameworks_agree (sourceOf pageWithBraces) "FILE" pageWithBraces
    hvue (imports_pageWithBracesFor .react)
  obtain ⟨tags, hread, _, hwrite⟩ := hother (by decide) rfl
  refine ⟨imports_pageWithBracesFor, hsame (by decide) (by decide), ⟨tags, hread, hwrite⟩, ?_, ?_⟩
  · simp only [pageWithBracesFor, ofRoot, inReadingOrder_pageWithBraces]
    decide +kernel
  · simp only [pageWithBracesFor, ofRoot, inReadingOrder_pageWithBraces]
    decide +kernel

/-! ## Texts that open expressions -/

/-- An escaped text opens an expression if and only if two braces open one for the framework and
the text has two braces in a row. And what stands between the tags of a conversion opens one if
and only if two braces do and a text or label that is shown has them in a row. -/
theorem opens_expression_iff :
    (∀ (f : Framework) (text : String), f.OpensExpression (escapeText f text).toList ↔
      (f = .vue ∨ f = .angular) ∧ ['\x7b', '\x7b'] <:+: text.toList) ∧
    let c := (ofRoot source o catalogue fileKey root).1
    ((∃ content ∈ contents (c.markup o.framework).toList, o.framework.OpensExpression content) ↔
      (o.framework = .vue ∨ o.framework = .angular) ∧
        ∃ text ∈ textsOf c.element.toList, ['\x7b', '\x7b'] <:+: text.toList) := by
  constructor
  · intro f text
    rw [escapeText, String.toList_ofList]
    exact opensExpression_escapeTextChars_iff f text.toList
  · exact exists_opensExpression_iff o.framework (legible_ofRoot source o catalogue fileKey root)

def greeting : Node := .mk (textLayer "1:1" "greeting" "\x7b\x7b 6 * 7 \x7d\x7d") []

def greetingMarkup (f : Framework) : String :=
  (ofRoot (sourceOf greeting) (optionsFor f) (Shelf.store.catalogue [] (optionsFor f)) "FILE"
    greeting).1.markup f

theorem inReadingOrder_greeting : greeting.inReadingOrder = greeting := by
  simp [greeting, Node.inReadingOrder]

theorem markup_greeting :
    greetingMarkup .vue = "<p class=\"\">\x7b\x7b 6 * 7 \x7d\x7d</p>" ∧
      greetingMarkup .angular = "<p class=\"\">\x7b\x7b 6 * 7 \x7d\x7d</p>" := by
  simp only [greetingMarkup, ofRoot, inReadingOrder_greeting]
  decide +kernel

/-- For two frameworks a text becomes an expression: what is shown is a number and not the text. -/
theorem product_is_shown_for_text :
    greetingMarkup .vue = "<p class=\"\">\x7b\x7b 6 * 7 \x7d\x7d</p>" ∧
      (∃ content ∈ contents (greetingMarkup .vue).toList,
        Framework.vue.OpensExpression content) ∧
      greetingMarkup .angular = "<p class=\"\">\x7b\x7b 6 * 7 \x7d\x7d</p>" ∧
      ∃ content ∈ contents (greetingMarkup .angular).toList,
        Framework.angular.OpensExpression content := by
  obtain ⟨hvue, hangular⟩ := markup_greeting
  have hcontent : "\x7b\x7b 6 * 7 \x7d\x7d".toList ∈
      contents "<p class=\"\">\x7b\x7b 6 * 7 \x7d\x7d</p>".toList := by
    decide +kernel
  have hbraces : ['\x7b', '\x7b'] <:+: "\x7b\x7b 6 * 7 \x7d\x7d".toList :=
    ⟨[], " 6 * 7 \x7d\x7d".toList, by decide⟩
  refine ⟨hvue, ⟨_, ?_, hbraces⟩, hangular, _, ?_, hbraces⟩
  · rw [hvue]
    exact hcontent
  · rw [hangular]
    exact hcontent

end Conversion

end DesignComponents
