import DesignComponents.Proofs.Markup.Escaping

/-!
# Tags

The language in which markup is written, apart from what its tags are for: tags by themselves and
tags around a text and further tags, with quoted attributes. A reader takes the text apart at the
characters that open a tag, and puts the tree together with a stack of the tags that are open.
What is written from a tree reads back as that tree and as no other.
-/

namespace DesignComponents.Markup

structure Attribute where
  name : String
  value : String
  deriving DecidableEq, Repr

/-- A tag of its own, or one around a text and the tags behind that text. -/
inductive Tag where
  | single (name : String) (attributes : List Attribute)
  | around (name : String) (attributes : List Attribute) (text : String) (content : List Tag)

/-- What stands from one opening angle bracket to the next. -/
inductive Mark where
  | single (name : String) (attributes : List Attribute)
  | opening (name : String) (attributes : List Attribute) (text : String)
  | closing (name : String)
  deriving DecidableEq, Repr

namespace Tag

mutual

def marks : Tag → List Mark
  | single name attributes => [.single name attributes]
  | around name attributes text content =>
    .opening name attributes text :: (marksOf content ++ [.closing name])

def marksOf : List Tag → List Mark
  | [] => []
  | t :: rest => marks t ++ marksOf rest

end

end Tag

/-! ## Writing -/

def Attribute.chars (a : Attribute) : List Char :=
  ' ' :: a.name.toList ++ ['=', '"'] ++ escapeChars a.value.toList ++ ['"']

def attributeChars (attributes : List Attribute) : List Char := attributes.flatMap Attribute.chars

namespace Mark

/-- A mark without the bracket that opens it. -/
def chars (f : Framework) : Mark → List Char
  | single name attributes => name.toList ++ attributeChars attributes ++ [' ', '/', '>']
  | opening name attributes text =>
    name.toList ++ attributeChars attributes ++ '>' :: escapeTextChars f text.toList
  | closing name => '/' :: name.toList ++ ['>']

end Mark

def marksText (f : Framework) (marks : List Mark) : List Char :=
  marks.flatMap fun m => '<' :: m.chars f

/-! ## Reading -/

/-- Tags and attributes are named by letters and digits. -/
def IsName (cs : List Char) : Prop := cs ≠ [] ∧ ∀ c ∈ cs, c.isAlphanum = true

instance (cs : List Char) : Decidable (IsName cs) :=
  decidable_of_iff (cs ≠ [] ∧ cs.all Char.isAlphanum = true) (by rw [List.all_eq_true]; rfl)

def name? (cs : List Char) : Option String := if IsName cs then some (String.ofList cs) else none

def attributeName? : List Char → Option String
  | ' ' :: cs => if cs.getLast? = some '=' then name? cs.dropLast else none
  | _ => none

/-- The attributes of a tag, from the parts between its quotes; and whether the tag stands by
itself. -/
def attributes? : List (List Char) → Option (List Attribute × Bool)
  | [[]] => some ([], false)
  | [[' ', '/']] => some ([], true)
  | label :: value :: parts => do
    let name ← attributeName? label
    let value ← unescape? reservedInValues value
    let (attributes, single) ← attributes? parts
    some (⟨name, String.ofList value⟩ :: attributes, single)
  | _ => none

/-- The mark of a tag that closes nothing, from its inside and the text behind it. -/
def opening? (f : Framework) (inside text : List Char) : Option Mark := do
  let name ← name? (inside.takeWhile (· ≠ ' '))
  let (attributes, single) ← attributes? ((inside.dropWhile (· ≠ ' ')).splitOn '"')
  if single then
    if text = [] then some (.single name attributes) else none
  else
    let text ← unescape? (reservedInText f) text
    some (.opening name attributes (String.ofList text))

/-- The mark that a part behind an opening bracket spells. -/
def mark? (f : Framework) (part : List Char) : Option Mark :=
  match part.splitOn '>' with
  | ['/' :: name, []] => (name? name).map .closing
  | [inside, text] => opening? f inside text
  | _ => none

/-- A tag that is open, with the tags before it. -/
structure OpenTag where
  before : List Tag
  name : String
  attributes : List Attribute
  text : String

/-- Puts marks together. `here` are the tags that stand so far within the innermost open tag. -/
def build : (stack : List OpenTag) → (here : List Tag) → List Mark → Option (List Tag)
  | [], here, [] => some here
  | _ :: _, _, [] => none
  | stack, here, .single name attributes :: marks =>
    build stack (here ++ [.single name attributes]) marks
  | stack, here, .opening name attributes text :: marks =>
    build (⟨here, name, attributes, text⟩ :: stack) [] marks
  | [], _, .closing _ :: _ => none
  | o :: stack, here, .closing name :: marks =>
    if name = o.name then
      build stack (o.before ++ [.around o.name o.attributes o.text here]) marks
    else none

/-- The tags that a text spells. Nothing may stand in front of the first. -/
def tags? (f : Framework) (text : List Char) : Option (List Tag) :=
  match text.splitOn '<' with
  | [] :: parts => do build [] [] (← parts.mapM (mark? f))
  | _ => none

/-! ## Marks read back -/

def Mark.Named : Mark → Prop
  | .single name attributes => IsName name.toList ∧ ∀ a ∈ attributes, IsName a.name.toList
  | .opening name attributes _ => IsName name.toList ∧ ∀ a ∈ attributes, IsName a.name.toList
  | .closing name => IsName name.toList

namespace Tag

def Named (t : Tag) : Prop := ∀ m ∈ t.marks, m.Named

def NamedAll (ts : List Tag) : Prop := ∀ m ∈ marksOf ts, m.Named

theorem named_single {name : String} {as : List Attribute} (hname : IsName name.toList)
    (has : ∀ a ∈ as, IsName a.name.toList) : Named (single name as) := by
  intro m hm
  rw [List.mem_singleton.mp hm]
  exact ⟨hname, has⟩

theorem named_around {name : String} (text : String) {as : List Attribute} {content : List Tag}
    (hname : IsName name.toList) (has : ∀ a ∈ as, IsName a.name.toList)
    (hcontent : NamedAll content) : Named (around name as text content) := by
  intro m hm
  rcases List.mem_cons.mp hm with rfl | hm
  · exact ⟨hname, has⟩
  · rcases List.mem_append.mp hm with hm | hm
    · exact hcontent m hm
    · rw [List.mem_singleton.mp hm]
      exact hname

theorem namedAll_nil : NamedAll [] := fun _ hm => absurd hm List.not_mem_nil

theorem namedAll_cons {t : Tag} {ts : List Tag} (ht : t.Named) (hts : NamedAll ts) :
    NamedAll (t :: ts) := by
  intro m hm
  rcases List.mem_append.mp hm with hm | hm
  · exact ht m hm
  · exact hts m hm

end Tag

theorem IsName.not_mem {cs : List Char} (h : IsName cs) {c : Char}
    (hc : c.isAlphanum = false) : c ∉ cs := by
  intro hm
  rw [h.2 c hm] at hc
  exact Bool.noConfusion hc

theorem name?_toList {s : String} (h : IsName s.toList) : name? s.toList = some s := by
  rw [name?, if_pos h, String.ofList_toList]

theorem attributeName?_label {s : String} (h : IsName s.toList) :
    attributeName? (' ' :: s.toList ++ ['=']) = some s := by
  rw [List.cons_append, attributeName?, List.getLast?_concat, if_pos rfl, List.dropLast_concat,
    name?_toList h]

def IsBracket (c : Char) : Prop := c = '<' ∨ c = '>'

theorem IsBracket.isAlphanum {c : Char} (h : IsBracket c) : c.isAlphanum = false := by
  rcases h with rfl | rfl <;> decide

theorem IsBracket.mem_reservedInValues {c : Char} (h : IsBracket c) : c ∈ reservedInValues := by
  rcases h with rfl | rfl <;> decide

theorem IsBracket.ne_ampersand {c : Char} (h : IsBracket c) : c ≠ '&' := by
  rcases h with rfl | rfl <;> decide

theorem Attribute.not_mem_chars {a : Attribute} (ha : IsName a.name.toList) {c : Char}
    (hc : IsBracket c) : c ∉ a.chars := by
  have hname : c ∉ a.name.toList := ha.not_mem hc.isAlphanum
  have hvalue : c ∉ escapeChars a.value.toList :=
    not_mem_escapeChars hc.mem_reservedInValues hc.ne_ampersand _
  rcases hc with rfl | rfl <;> simp [Attribute.chars, hname, hvalue]

theorem not_mem_attributeChars {as : List Attribute} (has : ∀ a ∈ as, IsName a.name.toList)
    {c : Char} (hc : IsBracket c) : c ∉ attributeChars as := by
  intro h
  obtain ⟨a, ha, hca⟩ := List.mem_flatMap.mp h
  exact Attribute.not_mem_chars (has a ha) hc hca

/-- Attributes behind each other are parted by their quotes. -/
theorem attributes?_splitOn {as : List Attribute} (has : ∀ a ∈ as, IsName a.name.toList)
    {last : List Char} (single : Bool) (hlast : attributes? [last] = some ([], single))
    (hquote : '"' ∉ last) :
    attributes? ((attributeChars as ++ last).splitOn '"') = some (as, single) := by
  induction as with
  | nil =>
    rw [attributeChars, List.flatMap_nil, List.nil_append, List.splitOn_eq_singleton hquote, hlast]
  | cons a as ih =>
    have ha := has a List.mem_cons_self
    have hlabel : '"' ∉ ' ' :: a.name.toList ++ ['='] := by
      have hname : '"' ∉ a.name.toList := ha.not_mem (by decide)
      simp [hname]
    have hvalue : '"' ∉ escapeChars a.value.toList := not_mem_escapeChars (by decide) (by decide) _
    have hchars : attributeChars (a :: as) ++ last = (' ' :: a.name.toList ++ ['=']) ++ '"' ::
        (escapeChars a.value.toList ++ '"' :: (attributeChars as ++ last)) := by
      simp [attributeChars, Attribute.chars]
    rw [hchars, List.splitOn_append_cons_self_of_not_mem hlabel,
      List.splitOn_append_cons_self_of_not_mem hvalue, attributes?.eq_def]
    simp only [attributeName?_label ha, unescape?_escapeChars, String.ofList_toList,
      ih fun b hb => has b (List.mem_cons_of_mem a hb), Option.bind_eq_bind, Option.bind_some]

/-- The name of a tag ends at the first blank, where its attributes begin. -/
theorem takeWhile_name {name rest : List Char} (hname : IsName name)
    (hrest : rest.head?.all (· == ' ')) : (name ++ rest).takeWhile (· ≠ ' ') = name := by
  have hpos : ∀ c ∈ name, decide (c ≠ ' ') = true := by
    intro c hc
    have hblank : ' ' ∉ name := hname.not_mem (by decide)
    exact decide_eq_true fun heq => hblank (heq ▸ hc)
  rw [List.takeWhile_append_of_pos hpos]
  cases rest with
  | nil => simp
  | cons c rest =>
    have hc : c = ' ' := by simpa using hrest
    simp [hc]

theorem dropWhile_name {name rest : List Char} (hname : IsName name)
    (hrest : rest.head?.all (· == ' ')) : (name ++ rest).dropWhile (· ≠ ' ') = rest := by
  have h := List.takeWhile_append_dropWhile (p := (· ≠ ' ')) (l := name ++ rest)
  rw [takeWhile_name hname hrest] at h
  exact List.append_cancel_left h

theorem head?_attributeChars (as : List Attribute) {last : List Char}
    (hlast : last.head?.all (· == ' ')) : (attributeChars as ++ last).head?.all (· == ' ') := by
  cases as with
  | nil => exact hlast
  | cons a as => rfl

/-- The inside of a tag is free of brackets, so that the first closing one ends it. -/
theorem splitOn_inside {name : List Char} (hname : IsName name) {as : List Attribute}
    (has : ∀ a ∈ as, IsName a.name.toList) (last text : List Char) (hlast : '>' ∉ last)
    (htext : '>' ∉ text) :
    (name ++ attributeChars as ++ last ++ '>' :: text).splitOn '>' =
      [name ++ (attributeChars as ++ last), text] := by
  have hinside : '>' ∉ name ++ (attributeChars as ++ last) := by
    have hn : '>' ∉ name := hname.not_mem (by decide)
    have ha : '>' ∉ attributeChars as := not_mem_attributeChars has (.inr rfl)
    simp [hn, ha, hlast]
  rw [List.append_assoc name, List.splitOn_append_cons_self_of_not_mem hinside,
    List.splitOn_eq_singleton htext]

theorem IsName.head_ne_slash {name : List Char} (h : IsName name) (rest : List Char) :
    ∃ c cs, name ++ rest = c :: cs ∧ c ≠ '/' := by
  cases name with
  | nil => exact absurd rfl h.1
  | cons c name =>
    refine ⟨c, name ++ rest, rfl, ?_⟩
    intro heq
    exact h.not_mem (c := '/') (by decide) (heq ▸ List.mem_cons_self)

theorem mark?_of_splitOn {f : Framework} {part name rest text : List Char} (hname : IsName name)
    (h : part.splitOn '>' = [name ++ rest, text]) :
    mark? f part = opening? f (name ++ rest) text := by
  obtain ⟨c, cs, hcs, hc⟩ := hname.head_ne_slash rest
  rw [mark?, h, hcs]
  split
  · rename_i heq
    simp only [List.cons.injEq] at heq
    exact absurd heq.1.1 hc
  · rename_i heq
    simp only [List.cons.injEq, and_true] at heq
    rw [← heq.1, ← heq.2]
  · rename_i _ hno
    exact absurd rfl (hno (c :: cs) text)

theorem mark?_chars (f : Framework) {m : Mark} (hm : m.Named) : mark? f (m.chars f) = some m := by
  cases m with
  | single name as =>
    have hsplit := splitOn_inside hm.1 hm.2 [' ', '/'] [] (by decide)
      (by decide)
    have hblank : ([' ', '/'] : List Char).head?.all (· == ' ') := rfl
    have hchars : (Mark.single name as).chars f =
        name.toList ++ attributeChars as ++ [' ', '/'] ++ '>' :: [] := by simp [Mark.chars]
    rw [hchars, mark?_of_splitOn hm.1 hsplit, opening?,
      takeWhile_name hm.1 (head?_attributeChars as hblank),
      dropWhile_name hm.1 (head?_attributeChars as hblank), name?_toList hm.1,
      attributes?_splitOn hm.2 true rfl (by decide)]
    rfl
  | opening name as text =>
    have htext : '>' ∉ escapeTextChars f text.toList :=
      not_mem_escapeTextChars (reservedInValues_subset f (by decide)) (by decide) _
    have hsplit := splitOn_inside hm.1 hm.2 [] _ (by decide) htext
    have hblank : ([] : List Char).head?.all (· == ' ') := rfl
    have hchars : (Mark.opening name as text).chars f =
        name.toList ++ attributeChars as ++ [] ++ '>' :: escapeTextChars f text.toList := by
      simp [Mark.chars]
    rw [hchars, mark?_of_splitOn hm.1 hsplit, opening?,
      takeWhile_name hm.1 (head?_attributeChars as hblank),
      dropWhile_name hm.1 (head?_attributeChars as hblank), name?_toList hm.1,
      attributes?_splitOn hm.2 false rfl (by decide)]
    simp [unescape?_escapeTextChars]
  | closing name =>
    have hinside : '>' ∉ '/' :: name.toList := by
      have hn : '>' ∉ name.toList := hm.not_mem (by decide)
      simp [hn]
    have hsplit : ('/' :: name.toList ++ '>' :: []).splitOn '>' = ['/' :: name.toList, []] := by
      rw [List.splitOn_append_cons_self_of_not_mem hinside, List.splitOn_nil]
    change mark? f ('/' :: name.toList ++ ['>']) = _
    rw [mark?, hsplit]
    simp [name?_toList hm]

/-! ## Trees read back -/

theorem Mark.not_mem_chars {m : Mark} (hm : m.Named) (f : Framework) : '<' ∉ m.chars f := by
  have hbracket : IsBracket '<' := .inl rfl
  cases m with
  | single name as =>
    have hname : '<' ∉ name.toList := hm.1.not_mem hbracket.isAlphanum
    have has : '<' ∉ attributeChars as := not_mem_attributeChars hm.2 hbracket
    simp [Mark.chars, hname, has]
  | opening name as text =>
    have hname : '<' ∉ name.toList := hm.1.not_mem hbracket.isAlphanum
    have has : '<' ∉ attributeChars as := not_mem_attributeChars hm.2 hbracket
    have htext : '<' ∉ escapeTextChars f text.toList :=
      not_mem_escapeTextChars (reservedInValues_subset f hbracket.mem_reservedInValues)
        hbracket.ne_ampersand _
    simp [Mark.chars, hname, has, htext]
  | closing name =>
    have hname : '<' ∉ name.toList := hm.not_mem hbracket.isAlphanum
    simp [Mark.chars, hname]

theorem splitOn_marksText (f : Framework) {marks : List Mark} (h : ∀ m ∈ marks, m.Named)
    (first : List Char) (hfirst : '<' ∉ first) :
    (first ++ marksText f marks).splitOn '<' = first :: marks.map (Mark.chars f) := by
  induction marks generalizing first with
  | nil =>
    rw [marksText, List.flatMap_nil, List.append_nil, List.splitOn_eq_singleton hfirst,
      List.map_nil]
  | cons m marks ih =>
    have hm : '<' ∉ m.chars f := Mark.not_mem_chars (h m List.mem_cons_self) f
    have htext : marksText f (m :: marks) = '<' :: (m.chars f ++ marksText f marks) := rfl
    rw [htext, List.splitOn_append_cons_self_of_not_mem hfirst,
      ih (fun k hk => h k (List.mem_cons_of_mem m hk)) _ hm, List.map_cons]

theorem mapM_mark? (f : Framework) {marks : List Mark} (h : ∀ m ∈ marks, m.Named) :
    (marks.map (Mark.chars f)).mapM (mark? f) = some marks := by
  induction marks with
  | nil => rfl
  | cons m marks ih =>
    rw [List.map_cons, List.mapM_cons, mark?_chars f (h m List.mem_cons_self),
      ih fun k hk => h k (List.mem_cons_of_mem m hk)]
    rfl

mutual

/-- The marks of a tag put that tag behind the ones that stand, whatever is open around it. -/
theorem build_marks (stack : List OpenTag) (here : List Tag) (rest : List Mark) :
    (t : Tag) → build stack here (t.marks ++ rest) = build stack (here ++ [t]) rest
  | .single name as => by cases stack <;> rfl
  | .around name as text content => by
    have hcontent := build_marksOf (⟨here, name, as, text⟩ :: stack) []
      (.closing name :: rest) content
    rw [List.nil_append] at hcontent
    have hopen : build stack here ((Tag.around name as text content).marks ++ rest) =
        build (⟨here, name, as, text⟩ :: stack) []
          (Tag.marksOf content ++ .closing name :: rest) := by
      rw [Tag.marks, List.cons_append, List.append_assoc, List.singleton_append]
      cases stack <;> rfl
    rw [hopen, hcontent, build, if_pos rfl]

theorem build_marksOf (stack : List OpenTag) (here : List Tag) (rest : List Mark) :
    (ts : List Tag) → build stack here (Tag.marksOf ts ++ rest) = build stack (here ++ ts) rest
  | [] => by rw [Tag.marksOf, List.nil_append, List.append_nil]
  | t :: ts => by
    rw [Tag.marksOf, List.append_assoc, build_marks stack here _ t,
      build_marksOf stack (here ++ [t]) rest ts, List.append_assoc, List.singleton_append]

end

/-- What is written from tags is read as those tags. -/
theorem tags?_marksText (f : Framework) {ts : List Tag} (h : Tag.NamedAll ts) :
    tags? f (marksText f (Tag.marksOf ts)) = some ts := by
  have hbuild := build_marksOf [] [] [] ts
  rw [List.append_nil, List.nil_append] at hbuild
  have hparts := splitOn_marksText f h [] List.not_mem_nil
  rw [List.nil_append] at hparts
  rw [tags?, hparts]
  simp only [mapM_mark? f h, Option.bind_eq_bind, Option.bind_some, hbuild, build]

end DesignComponents.Markup
