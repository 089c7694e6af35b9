import DesignComponents.Markup.Element
import DesignComponents.Proofs.Markup.Tag
import DesignComponents.Proofs.Style.ClassText

/-!
# Markup read as elements

The tags of an element, and the element of tags. Every kind of element has tags of its own, so
that the element is found again from the names and the attributes of its tags. Together with the
reader of tags this reads the markup of an element back, for every framework and whatever texts
and addresses the element has.
-/

namespace DesignComponents

open Markup

namespace Element

def classAttribute (f : Framework) (c : ClassList) : Attribute := ⟨f.classAttribute, c.text⟩

def rowTag (f : Framework) (cells : List Tag) : Tag :=
  .around "tr" [⟨f.classAttribute, "flex"⟩] "" cells

/-- The classes of an input, the common one first. -/
def inputClasses (c : ClassList) : ClassList := ClassList.empty.push inputClass ++ c

mutual

/-- The tag of an element; texts, addresses and names are in it as they are meant. -/
def tag (f : Framework) : Element → Tag
  | image address c => .single "img" [⟨"src", address⟩, classAttribute f c]
  | imageContainer address c =>
    .around "div" [classAttribute f c] "" [.single "img" [⟨"src", address⟩]]
  | text content c => .around "p" [classAttribute f c] content []
  | label content c => .around "label" [classAttribute f c] content []
  | input placeholder c =>
    .single "input"
      [⟨"type", "text"⟩, ⟨"placeholder", placeholder⟩, classAttribute f (inputClasses c)]
  | table heads cells =>
    .around "div" [⟨f.classAttribute, "overflow-x-scroll"⟩] ""
      [.around "table" [] ""
        [.around "thead" [] "" [rowTag f (tags f heads)],
          .around "tbody" [] "" [rowTag f (tags f cells)]]]
  | headingCell content c => .around "th" [classAttribute f c] "" (tags f content)
  | dataCell content c => .around "td" [classAttribute f c] "" (tags f content)
  | container content c => .around "div" [classAttribute f c] "" (tags f content)
  | reference name => .single name []

def tags (f : Framework) : List Element → List Tag
  | [] => []
  | e :: rest => tag f e :: tags f rest

end

/-- Components are named by letters and digits behind a capital. -/
def IsComponentName (cs : List Char) : Prop := IsName cs ∧ cs.head?.any Char.isUpper = true

instance (cs : List Char) : Decidable (IsComponentName cs) := by
  unfold IsComponentName; infer_instance

mutual

/-- Classes and component names, which are written without escaping, need none. -/
def Legible : Element → Prop
  | image _ c | imageContainer _ c | text _ c | label _ c => c.AllBare
  | input _ c => c.AllBare ∧ inputClass ∉ c.tokens
  | table heads cells => LegibleAll heads ∧ LegibleAll cells
  | headingCell content c | dataCell content c | container content c =>
    LegibleAll content ∧ c.AllBare
  | reference name => IsComponentName name.toList

def LegibleAll : List Element → Prop
  | [] => True
  | e :: rest => Legible e ∧ LegibleAll rest

end

end Element

/-! ## Writing elements as tags -/

namespace Markup

theorem toList_attributeText (name value : String) :
    (attributeText name value).toList =
      ' ' :: name.toList ++ ['=', '"'] ++ value.toList ++ ['"'] := by
  simp [attributeText]

theorem toList_escapedAttribute (name value : String) :
    (attributeText name (escape value)).toList = Attribute.chars ⟨name, value⟩ := by
  rw [toList_attributeText, escape, String.toList_ofList]
  rfl

theorem toList_bareAttribute (name : String) {value : String}
    (h : escapeChars value.toList = value.toList) :
    (attributeText name value).toList = Attribute.chars ⟨name, value⟩ := by
  rw [toList_attributeText, Attribute.chars, h]

theorem toList_classes (f : Framework) {c : ClassList} (h : c.AllBare) :
    (classes f c).toList = (Element.classAttribute f c).chars :=
  toList_bareAttribute f.classAttribute (ClassList.escapeChars_text h)

theorem toList_single (f : Framework) (name : String) {attributes : String}
    {as : List Attribute} (has : attributes.toList = attributeChars as) :
    (single name attributes).toList = marksText f (Tag.single name as).marks := by
  simp [single, has, marksText, Tag.marks, Mark.chars]

theorem toList_enclose (f : Framework) (name text : String) {attributes content : String}
    {as : List Attribute} {ts : List Tag} (has : attributes.toList = attributeChars as)
    (hcontent : content.toList =
      escapeTextChars f text.toList ++ marksText f (Tag.marksOf ts)) :
    (enclose name attributes content).toList =
      marksText f (Tag.around name as text ts).marks := by
  simp [enclose, has, hcontent, marksText, Tag.marks, Mark.chars]

theorem content_of_tags (f : Framework) {content : String} {ts : List Tag}
    (h : content.toList = marksText f (Tag.marksOf ts)) :
    content.toList = escapeTextChars f "".toList ++ marksText f (Tag.marksOf ts) := by
  rw [h]
  cases f <;> rfl

theorem content_of_text (f : Framework) (text : String) :
    (escapeText f text).toList = escapeTextChars f text.toList ++ marksText f (Tag.marksOf []) := by
  rw [escapeText, String.toList_ofList]
  exact (List.append_nil _).symm

theorem marksText_append (f : Framework) (ms ns : List Mark) :
    marksText f (ms ++ ns) = marksText f ms ++ marksText f ns := List.flatMap_append

theorem marksText_marksOf_singleton (f : Framework) (t : Tag) :
    marksText f (Tag.marksOf [t]) = marksText f t.marks := by
  rw [Tag.marksOf, Tag.marksOf, List.append_nil]

theorem attributeChars_singleton (a : Attribute) : attributeChars [a] = a.chars :=
  List.append_nil _

theorem attributeChars_cons (a : Attribute) (as : List Attribute) :
    attributeChars (a :: as) = a.chars ++ attributeChars as := rfl

theorem toList_enclose_tag (f : Framework) (name : String) {attributes content : String}
    {as : List Attribute} {t : Tag} (has : attributes.toList = attributeChars as)
    (hcontent : content.toList = marksText f t.marks) :
    (enclose name attributes content).toList =
      marksText f (Tag.around name as "" [t]).marks := by
  refine toList_enclose f name "" has (content_of_tags f ?_)
  rw [hcontent, marksText_marksOf_singleton]

theorem toList_row (f : Framework) {cells : String} {ts : List Tag}
    (h : cells.toList = marksText f (Tag.marksOf ts)) :
    (row f cells).toList = marksText f (Element.rowTag f ts).marks := by
  refine toList_enclose f "tr" "" ?_ (content_of_tags f h)
  rw [attributeChars_singleton, toList_bareAttribute f.classAttribute (by decide)]

theorem toList_table (f : Framework) {heads cells : String} {hs cs : List Tag}
    (hheads : heads.toList = marksText f (Tag.marksOf hs))
    (hcells : cells.toList = marksText f (Tag.marksOf cs)) :
    (table f (tableHead f heads) (tableBody f cells)).toList =
      marksText f (Tag.around "div" [⟨f.classAttribute, "overflow-x-scroll"⟩] ""
        [.around "table" [] ""
          [.around "thead" [] "" [Element.rowTag f hs],
            .around "tbody" [] "" [Element.rowTag f cs]]]).marks := by
  have hnone : "".toList = attributeChars [] := rfl
  have hhead := toList_enclose_tag f "thead" hnone (toList_row f hheads)
  have hbody := toList_enclose_tag f "tbody" hnone (toList_row f hcells)
  refine toList_enclose_tag f "div" ?_ ?_
  · rw [attributeChars_singleton, toList_bareAttribute f.classAttribute (by decide)]
  · refine toList_enclose f "table" "" hnone (content_of_tags f ?_)
    rw [String.toList_append, tableHead, tableBody, hhead, hbody, Tag.marksOf, Tag.marksOf,
      Tag.marksOf, List.append_nil, marksText_append]

end Markup

namespace Element

theorem eq_inputClass {t : String} (h : t ∈ (ClassList.empty.push inputClass).tokens) :
    t = inputClass := List.mem_singleton.mp h

/-- The class of every input needs no escaping either. -/
theorem allBare_inputClasses {c : ClassList} (h : c.AllBare) : (inputClasses c).AllBare := by
  intro t ht
  rcases ClassList.mem_tokens_append ht with hinput | hc
  · have hall : inputClass.toList.all (fun c => decide (ClassList.Bare c)) = true := by decide
    rw [eq_inputClass hinput]
    exact fun ch hch => of_decide_eq_true (List.all_eq_true.mp hall ch hch)
  · exact h t hc

theorem tokens_inputClasses {c : ClassList} (h : inputClass ∉ c.tokens) :
    (inputClasses c).tokens = inputClass :: c.tokens :=
  ClassList.tokens_append fun _ ht hc => h (eq_inputClass ht ▸ hc)

mutual

/-- The markup of an element is that of its tag. -/
theorem toList_markup (f : Framework) :
    (e : Element) → e.Legible → (e.markup f).toList = marksText f (e.tag f).marks
  | image address c, h => by
    refine toList_single f "img" ?_
    rw [String.toList_append, toList_escapedAttribute, toList_classes f h, attributeChars_cons,
      attributeChars_singleton]
  | imageContainer address c, h => by
    refine toList_enclose_tag f "div" ?_ (toList_single f "img" ?_)
    · rw [toList_classes f h, attributeChars_singleton]
    · rw [toList_escapedAttribute, attributeChars_singleton]
  | text content c, h => by
    refine toList_enclose f "p" content ?_ (content_of_text f content)
    rw [toList_classes f h, attributeChars_singleton]
  | label content c, h => by
    refine toList_enclose f "label" content ?_ (content_of_text f content)
    rw [toList_classes f h, attributeChars_singleton]
  | input placeholder c, h => by
    refine toList_single f "input" ?_
    have hclasses := toList_classes f (allBare_inputClasses h.1)
    rw [inputClasses] at hclasses
    rw [String.toList_append, String.toList_append, hclasses, toList_escapedAttribute,
      toList_bareAttribute "type" (by decide), attributeChars_cons, attributeChars_cons,
      attributeChars_singleton, List.append_assoc]
    rfl
  | table heads cells, h =>
    toList_table f (toList_markupOf f heads h.1) (toList_markupOf f cells h.2)
  | headingCell content c, h => by
    refine toList_enclose f "th" "" ?_ (content_of_tags f (toList_markupOf f content h.1))
    rw [toList_classes f h.2, attributeChars_singleton]
  | dataCell content c, h => by
    refine toList_enclose f "td" "" ?_ (content_of_tags f (toList_markupOf f content h.1))
    rw [toList_classes f h.2, attributeChars_singleton]
  | container content c, h => by
    refine toList_enclose f "div" "" ?_ (content_of_tags f (toList_markupOf f content h.1))
    rw [toList_classes f h.2, attributeChars_singleton]
  | reference name, _ => toList_single f name rfl

theorem toList_markupOf (f : Framework) :
    (es : List Element) → LegibleAll es →
      (markupOf f es).toList = marksText f (Tag.marksOf (tags f es))
  | [], _ => rfl
  | e :: es, h => by
    rw [markupOf, String.toList_append, toList_markup f e h.1, toList_markupOf f es h.2, tags,
      Tag.marksOf, marksText_append]

end

theorem isName_classAttribute (f : Framework) : IsName f.classAttribute.toList := by
  cases f <;> decide

theorem named_cons {name : String} (h : IsName name.toList) (value : String)
    {as : List Attribute} (has : ∀ a ∈ as, IsName a.name.toList) :
    ∀ a ∈ ⟨name, value⟩ :: as, IsName a.name.toList :=
  List.forall_mem_cons.mpr ⟨h, has⟩

theorem named_class (f : Framework) (value : String) :
    ∀ a ∈ [(⟨f.classAttribute, value⟩ : Attribute)], IsName a.name.toList :=
  named_cons (isName_classAttribute f) value (List.forall_mem_nil _)

theorem named_rowTag (f : Framework) {ts : List Tag} (h : Tag.NamedAll ts) :
    (rowTag f ts).Named := Tag.named_around "" (by decide) (named_class f "flex") h

theorem named_section {name : String} (hname : IsName name.toList) {ts : List Tag}
    (h : Tag.NamedAll ts) : (Tag.around name [] "" ts).Named :=
  Tag.named_around "" hname (List.forall_mem_nil _) h

mutual

theorem named_tag (f : Framework) : (e : Element) → e.Legible → (e.tag f).Named
  | image address c, _ =>
    Tag.named_single (by decide) (named_cons (by decide) address (named_class f c.text))
  | imageContainer address c, _ => by
    have himage : (Tag.single "img" [⟨"src", address⟩]).Named :=
      Tag.named_single (by decide) (named_cons (by decide) address (List.forall_mem_nil _))
    exact Tag.named_around "" (by decide) (named_class f c.text)
      (Tag.namedAll_cons himage Tag.namedAll_nil)
  | text content c, _ | label content c, _ =>
    Tag.named_around content (by decide) (named_class f c.text) Tag.namedAll_nil
  | input placeholder c, _ => by
    refine Tag.named_single (by decide) ?_
    refine named_cons (by decide) "text" ?_
    exact named_cons (by decide) placeholder (named_class f (inputClasses c).text)
  | table heads cells, h => by
    have hhead : (Tag.around "thead" [] "" [rowTag f (tags f heads)]).Named :=
      named_section (by decide)
        (Tag.namedAll_cons (named_rowTag f (named_tags f heads h.1)) Tag.namedAll_nil)
    have hbody : (Tag.around "tbody" [] "" [rowTag f (tags f cells)]).Named :=
      named_section (by decide)
        (Tag.namedAll_cons (named_rowTag f (named_tags f cells h.2)) Tag.namedAll_nil)
    have hsections := Tag.namedAll_cons hhead (Tag.namedAll_cons hbody Tag.namedAll_nil)
    exact Tag.named_around "" (by decide) (named_class f "overflow-x-scroll")
      (Tag.namedAll_cons (named_section (by decide) hsections) Tag.namedAll_nil)
  | headingCell content c, h | dataCell content c, h | container content c, h =>
    Tag.named_around "" (by decide) (named_class f c.text) (named_tags f content h.1)
  | reference _, h => Tag.named_single h.1 (by decide)

theorem named_tags (f : Framework) :
    (es : List Element) → LegibleAll es → Tag.NamedAll (tags f es)
  | [], _ => Tag.namedAll_nil
  | e :: es, h => Tag.namedAll_cons (named_tag f e h.1) (named_tags f es h.2)

end

end Element

/-! ## Elements of tags -/

/-- What a tag turns out to be: an element, or a part of one that its parent completes. -/
inductive Part where
  | element (e : Element)
  | picture (address : String)
  | row (cells : List Element)
  | head (cells : List Element)
  | body (cells : List Element)
  | grid (heads cells : List Element)

namespace Part

def elements? : List Part → Option (List Element)
  | [] => some []
  | element e :: rest => (elements? rest).map (e :: ·)
  | _ :: _ => none

def classes? (f : Framework) : List Attribute → Option ClassList
  | [a] => if a.name = f.classAttribute then some (.ofText a.value) else none
  | _ => none

def image? (f : Framework) (source : Attribute) (rest : List Attribute) : Option Part :=
  if source.name = "src" then
    if rest = [] then some (picture source.value)
    else (classes? f rest).map fun c => element (.image source.value c)
  else none

/-- The classes of an input without the one that all inputs have. -/
def ownClasses? (c : ClassList) : Option ClassList :=
  match c.tokens with
  | t :: rest => if t = inputClass then some (.ofList rest) else none
  | [] => none

def input? (f : Framework) (placeholder : Attribute) (rest : List Attribute) : Option Part :=
  if placeholder.name = "placeholder" then
    ((classes? f rest).bind ownClasses?).map fun c => element (.input placeholder.value c)
  else none

def ofSingle? (f : Framework) (name : String) : List Attribute → Option Part
  | [] => if Element.IsComponentName name.toList then some (element (.reference name)) else none
  | a :: rest =>
    if name = "img" then image? f a rest
    else if name = "input" ∧ a = ⟨"type", "text"⟩ then
      match rest with
      | placeholder :: rest => input? f placeholder rest
      | [] => none
    else none

def ofText? (f : Framework) (name : String) (attributes : List Attribute) (text : String) :
    Option Part :=
  if name = "p" then (classes? f attributes).map fun c => element (.text text c)
  else if name = "label" then (classes? f attributes).map fun c => element (.label text c)
  else none

def ofRow? (f : Framework) (attributes : List Attribute) (parts : List Part) : Option Part :=
  if attributes = [⟨f.classAttribute, "flex"⟩] then (elements? parts).map row else none

def ofSections? : List Part → Option Part
  | [head heads, body cells] => some (grid heads cells)
  | _ => none

/-- A tag around elements, which it shows one behind the other. -/
def ofElements? (f : Framework) (shape : List Element → ClassList → Element)
    (attributes : List Attribute) (parts : List Part) : Option Part := do
  let c ← classes? f attributes
  let content ← elements? parts
  some (element (shape content c))

def ofDivision? (f : Framework) (attributes : List Attribute) : List Part → Option Part
  | [grid heads cells] =>
    if attributes = [⟨f.classAttribute, "overflow-x-scroll"⟩] then
      some (element (.table heads cells))
    else none
  | [picture address] =>
    (classes? f attributes).map fun c => element (.imageContainer address c)
  | parts => ofElements? f .container attributes parts

def ofContent? (f : Framework) (name : String) (attributes : List Attribute)
    (parts : List Part) : Option Part :=
  if name = "div" then ofDivision? f attributes parts
  else if name = "th" then ofElements? f .headingCell attributes parts
  else if name = "td" then ofElements? f .dataCell attributes parts
  else if name = "tr" then ofRow? f attributes parts
  else if attributes ≠ [] then none
  else if name = "table" then ofSections? parts
  else
    match parts with
    | [row cells] =>
      if name = "thead" then some (head cells)
      else if name = "tbody" then some (body cells)
      else none
    | _ => none

/-- Texts and tags stand in tags of different names. -/
def ofAround? (f : Framework) (name : String) (attributes : List Attribute) (text : String)
    (parts : List Part) : Option Part :=
  if name = "p" ∨ name = "label" then
    if parts.isEmpty then ofText? f name attributes text else none
  else if text = "" then ofContent? f name attributes parts
  else none

mutual

def ofTag? (f : Framework) : Tag → Option Part
  | .single name attributes => ofSingle? f name attributes
  | .around name attributes text content => do
    ofAround? f name attributes text (← ofTags? f content)

def ofTags? (f : Framework) : List Tag → Option (List Part)
  | [] => some []
  | t :: rest => do
    let part ← ofTag? f t
    let parts ← ofTags? f rest
    some (part :: parts)

end

theorem elements?_map (es : List Element) : elements? (es.map element) = some es := by
  induction es with
  | nil => rfl
  | cons e es ih => rw [List.map_cons, elements?, ih]; rfl

theorem classes?_classAttribute (f : Framework) {c : ClassList} (h : c.AllBare) :
    classes? f [Element.classAttribute f c] = some c := by
  rw [classes?, Element.classAttribute, if_pos rfl, ClassList.ofText_text h]

theorem ownClasses?_inputClasses {c : ClassList} (h : inputClass ∉ c.tokens) :
    ownClasses? (Element.inputClasses c) = some c := by
  rw [ownClasses?, Element.tokens_inputClasses h]
  simp only [if_pos, ClassList.ofList_tokens]

theorem ofElements?_map (f : Framework) (shape : List Element → ClassList → Element)
    {c : ClassList} (h : c.AllBare) (es : List Element) :
    ofElements? f shape [Element.classAttribute f c] (es.map element) =
      some (element (shape es c)) := by
  rw [ofElements?, classes?_classAttribute f h, elements?_map]
  rfl

/-- A division around whole elements is a container. -/
theorem ofDivision?_map (f : Framework) (attributes : List Attribute) (es : List Element) :
    ofDivision? f attributes (es.map element) =
      ofElements? f .container attributes (es.map element) := by
  cases es with
  | nil => rfl
  | cons e es => cases es <;> rfl

theorem ofTags?_singleton (f : Framework) {t : Tag} {part : Part} (h : ofTag? f t = some part) :
    ofTags? f [t] = some [part] := by
  rw [ofTags?, h]
  rfl

theorem ofTag?_rowTag (f : Framework) {ts : List Tag} {es : List Element}
    (h : ofTags? f ts = some (es.map element)) : ofTag? f (Element.rowTag f ts) = some (row es) := by
  have hrow : ofRow? f [⟨f.classAttribute, "flex"⟩] (es.map element) = some (row es) := by
    rw [ofRow?, if_pos rfl, elements?_map]
    rfl
  rw [Element.rowTag, ofTag?, h]
  exact hrow

theorem ofTag?_grid (f : Framework) {hs cs : List Tag} {heads cells : List Element}
    (hheads : ofTags? f hs = some (heads.map element))
    (hcells : ofTags? f cs = some (cells.map element)) :
    ofTag? f (.around "table" [] "" [.around "thead" [] "" [Element.rowTag f hs],
      .around "tbody" [] "" [Element.rowTag f cs]]) = some (grid heads cells) := by
  have hhead : ofTag? f (.around "thead" [] "" [Element.rowTag f hs]) = some (head heads) := by
    rw [ofTag?, ofTags?_singleton f (ofTag?_rowTag f hheads)]
    rfl
  have hbody : ofTag? f (.around "tbody" [] "" [Element.rowTag f cs]) = some (body cells) := by
    rw [ofTag?, ofTags?_singleton f (ofTag?_rowTag f hcells)]
    rfl
  rw [ofTag?, ofTags?, hhead, ofTags?_singleton f hbody]
  rfl

mutual

/-- The tag of an element is that of no other. -/
theorem ofTag?_tag (f : Framework) :
    (e : Element) → e.Legible → ofTag? f (e.tag f) = some (element e)
  | .image address c, h => by
    change image? f ⟨"src", address⟩ [Element.classAttribute f c] = _
    rw [image?, if_pos rfl, if_neg (List.cons_ne_nil _ _), classes?_classAttribute f h]
    rfl
  | .imageContainer address c, h => by
    change (classes? f [Element.classAttribute f c]).map
      (fun c => element (.imageContainer address c)) = _
    rw [classes?_classAttribute f h]
    rfl
  | .text content c, h => by
    change (classes? f [Element.classAttribute f c]).map (fun c => element (.text content c)) = _
    rw [classes?_classAttribute f h]
    rfl
  | .label content c, h => by
    change (classes? f [Element.classAttribute f c]).map (fun c => element (.label content c)) = _
    rw [classes?_classAttribute f h]
    rfl
  | .input placeholder c, h => by
    change input? f ⟨"placeholder", placeholder⟩
      [Element.classAttribute f (Element.inputClasses c)] = _
    rw [input?, if_pos rfl, classes?_classAttribute f (Element.allBare_inputClasses h.1),
      Option.bind_some, ownClasses?_inputClasses h.2]
    rfl
  | .table heads cells, h => by
    have hgrid := ofTag?_grid f (ofTags?_tags f heads h.1) (ofTags?_tags f cells h.2)
    rw [Element.tag, ofTag?, ofTags?_singleton f hgrid]
    change ofDivision? f _ [grid heads cells] = _
    rw [ofDivision?, if_pos rfl]
  | .headingCell content c, h => by
    rw [Element.tag, ofTag?, ofTags?_tags f content h.1]
    exact ofElements?_map f .headingCell h.2 content
  | .dataCell content c, h => by
    rw [Element.tag, ofTag?, ofTags?_tags f content h.1]
    exact ofElements?_map f .dataCell h.2 content
  | .container content c, h => by
    rw [Element.tag, ofTag?, ofTags?_tags f content h.1]
    exact (ofDivision?_map f _ content).trans (ofElements?_map f .container h.2 content)
  | .reference name, h => by
    change (if Element.IsComponentName name.toList then some (element (.reference name)) else none) = _
    exact if_pos h

theorem ofTags?_tags (f : Framework) :
    (es : List Element) → Element.LegibleAll es →
      ofTags? f (Element.tags f es) = some (es.map element)
  | [], _ => rfl
  | e :: es, h => by
    rw [Element.tags, ofTags?, ofTag?_tag f e h.1, ofTags?_tags f es h.2]
    rfl

end

end Part

/-! ## Markup -/

namespace Markup

/-- The tags that a text spells as markup. -/
def readTags (f : Framework) (markup : String) : Option (List Tag) := tags? f markup.toList

/-- Reads markup: nothing at all, or one element and nothing around it. Any other text is no
markup. -/
def read (f : Framework) (markup : String) : Option (Option Element) :=
  match readTags f markup with
  | some [] => some none
  | some [t] =>
    match Part.ofTag? f t with
    | some (.element e) => some (some e)
    | _ => none
  | _ => none

theorem readTags_markup (f : Framework) {e : Element} (h : e.Legible) :
    readTags f (e.markup f) = some [e.tag f] := by
  have htext : (e.markup f).toList = marksText f (Tag.marksOf [e.tag f]) := by
    rw [Element.toList_markup f e h, marksText_marksOf_singleton]
  rw [readTags, htext]
  exact tags?_marksText f (Tag.namedAll_cons (Element.named_tag f e h) Tag.namedAll_nil)

theorem readTags_empty (f : Framework) : readTags f "" = some [] :=
  tags?_marksText f Tag.namedAll_nil

/-- The markup of an element, or of none, is that of its tags. -/
theorem toList_markup_getD (f : Framework) {e? : Option Element} (h : ∀ e ∈ e?, e.Legible) :
    ((e?.map (·.markup f)).getD "").toList =
      marksText f (Tag.marksOf (Element.tags f e?.toList)) := by
  cases e? with
  | none => rfl
  | some e => exact (Element.toList_markup f e (h e rfl)).trans (marksText_marksOf_singleton f _).symm

theorem readTags_getD (f : Framework) {e? : Option Element} (h : ∀ e ∈ e?, e.Legible) :
    readTags f ((e?.map (·.markup f)).getD "") = some (Element.tags f e?.toList) := by
  cases e? with
  | none => exact readTags_empty f
  | some e => exact readTags_markup f (h e rfl)

/-- The markup of an element reads as that element, and no markup as none. -/
theorem read_markup (f : Framework) {e? : Option Element} (h : ∀ e ∈ e?, e.Legible) :
    read f ((e?.map (·.markup f)).getD "") = some e? := by
  rw [read, readTags_getD f h]
  cases e? with
  | none => rfl
  | some e => simp only [Option.toList_some, Element.tags, Part.ofTag?_tag f e (h e rfl)]

/-- Different elements have different markup. -/
theorem markup_inj (f : Framework) {e? e'? : Option Element} (h : ∀ e ∈ e?, e.Legible)
    (h' : ∀ e ∈ e'?, e.Legible)
    (hsame : (e?.map (·.markup f)).getD "" = (e'?.map (·.markup f)).getD "") : e? = e'? := by
  have hread := read_markup f h
  rw [hsame, read_markup f h'] at hread
  exact (Option.some.inj hread).symm

end Markup

end DesignComponents
