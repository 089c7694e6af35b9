import Mathlib.Data.List.Nodup
import DesignComponents.Proofs.Component.Identifier
import DesignComponents.Proofs.Conversion.OwnName

/-!
# Component files read back

A file with imports has one line for each of them in front of the component, which encloses the
markup in lines of its own. From the text of the file the imports are read line by line, and then
the markup is what the lines around it leave, whatever lines there are in the markup itself.
-/

namespace DesignComponents

open Element Markup

/-- What the contents of a component file say; not all of them say the name. -/
structure SourceText where
  name? : Option String
  imports : List String
  markup : String
  deriving DecidableEq, Repr

namespace SourceText

/-! ## Texts between others -/

/-- What stands between a beginning and an ending. -/
def between? (opening closing : String) (cs : List Char) : Option (List Char) :=
  (cs.dropPrefix? opening.toList).bind (·.dropSuffix? closing.toList)

theorem dropPrefix?_append (start rest : List Char) :
    (start ++ rest).dropPrefix? start = some rest :=
  List.dropPrefix?_append_of_beq rest (beq_self_eq_true start)

theorem between?_append (opening closing : String) (cs : List Char) :
    between? opening closing (opening.toList ++ (cs ++ closing.toList)) = some cs := by
  rw [between?, dropPrefix?_append, Option.bind_some, List.dropSuffix?_eq_some_iff]
  exact ⟨_, rfl, beq_self_eq_true _⟩

/-- The lines around a markup, and what stands in place of an empty one. -/
structure Frame where
  empty : String
  opening : String
  closing : String

namespace Frame

def body (frame : Frame) (markup : String) : String :=
  if markup.isEmpty then frame.empty else frame.opening ++ markup ++ frame.closing

def markup? (frame : Frame) (body : List Char) : Option String :=
  if body = frame.empty.toList then some ""
  else (between? frame.opening frame.closing body).map String.ofList

/-- The lines around a markup are longer than what stands in place of an empty one. -/
def Distinct (frame : Frame) : Prop :=
  frame.empty.toList.length < frame.opening.toList.length + frame.closing.toList.length

theorem markup?_body {frame : Frame} (h : frame.Distinct) (markup : String) :
    frame.markup? (frame.body markup).toList = some markup := by
  rw [markup?, body]
  cases hempty : markup.isEmpty with
  | true =>
    rw [if_pos rfl, if_pos rfl, String.isEmpty_iff.mp hempty]
  | false =>
    have hlonger : (frame.opening ++ markup ++ frame.closing).toList ≠ frame.empty.toList := by
      intro heq
      have hlength := congrArg List.length heq
      simp only [String.toList_append, List.length_append] at hlength
      unfold Distinct at h
      omega
    rw [if_neg Bool.false_ne_true, if_neg hlonger, String.toList_append, String.toList_append,
      List.append_assoc, between?_append, Option.map_some, String.ofList_toList]

end Frame

/-! ## Import lines -/

/-- The file in which a component of this name is looked for. -/
def importedFile (f : Framework) (extension name : String) : String :=
  match f with
  | .vue => name ++ "." ++ extension
  | _ => name

def line (f : Framework) (extension name : String) : String :=
  Framework.importLine name (importedFile f extension name)

def lines (f : Framework) (extension : String) (imports : List String) : String :=
  String.join (imports.map (line f extension))

/-- What a text begins with, up to the first blank. -/
def word (cs : List Char) : String := String.ofList (cs.takeWhile (· != ' '))

/-- The name in an import line, and what stands behind the line. -/
def imported? (f : Framework) (extension : String) (cs : List Char) : Option (String × List Char) :=
  let name := word (cs.drop "import ".toList.length)
  (cs.dropPrefix? (line f extension name).toList).map (name, ·)

/-- The names in the import lines that a text begins with, and what stands behind them. -/
def readImports (f : Framework) (extension : String) (cs : List Char) :
    List String × List Char :=
  match imported? f extension cs with
  | none => ([], cs)
  | some (name, rest) =>
    if rest.length < cs.length then
      (name :: (readImports f extension rest).1, (readImports f extension rest).2)
    else ([], cs)
termination_by cs.length

theorem toList_line (f : Framework) (extension name : String) :
    (line f extension name).toList =
      "import ".toList ++ (name.toList ++
        (" from \"./".toList ++ (importedFile f extension name).toList ++ "\";\n".toList)) := by
  simp only [line, Framework.importLine, String.toList_append, List.append_assoc]

/-- A name that has no blank ends at the first one behind it. -/
theorem word_append {name : String} (h : ' ' ∉ name.toList) (cs : List Char) :
    word (name.toList ++ ' ' :: cs) = name := by
  have hname : ∀ c ∈ name.toList, (c != ' ') = true :=
    fun c hc => bne_iff_ne.mpr fun hblank => h (hblank ▸ hc)
  rw [word, List.takeWhile_append_of_pos hname, List.takeWhile_cons_of_neg (by decide),
    List.append_nil, String.ofList_toList]

theorem imported?_line (f : Framework) (extension : String) {name : String}
    (h : ' ' ∉ name.toList) (rest : List Char) :
    imported? f extension ((line f extension name).toList ++ rest) = some (name, rest) := by
  have hname : word (((line f extension name).toList ++ rest).drop
      "import ".toList.length) = name := by
    rw [toList_line, List.append_assoc, List.drop_left, List.append_assoc]
    exact word_append h _
  rw [imported?, hname, dropPrefix?_append]
  rfl

/-- Every import line begins with the same letter. -/
theorem imported?_eq_none (f : Framework) (extension : String) {cs : List Char}
    (h : cs.head? ≠ some 'i') : imported? f extension cs = none := by
  rw [imported?, Option.map_eq_none_iff, ← Option.not_isSome_iff_eq_none]
  intro hsome
  obtain ⟨rest, hrest⟩ := Option.isSome_iff_exists.mp hsome
  obtain ⟨start, rfl, hstart⟩ := List.dropPrefix?_eq_some_iff.mp hrest
  rw [eq_of_beq hstart, toList_line] at h
  exact h rfl

theorem length_lt_line_append (f : Framework) (extension name : String) (rest : List Char) :
    rest.length < ((line f extension name).toList ++ rest).length := by
  have hword : 0 < "import ".toList.length := by decide
  rw [toList_line]
  simp only [List.length_append]
  omega

theorem toList_lines_cons (f : Framework) (extension name : String) (imports : List String) :
    (lines f extension (name :: imports)).toList =
      (line f extension name).toList ++ (lines f extension imports).toList := by
  rw [lines, lines, String.toList_join, String.toList_join, List.map_cons, List.flatMap_cons]

theorem readImports_lines (f : Framework) (extension : String) {imports : List String}
    (h : ∀ name ∈ imports, ' ' ∉ name.toList) {rest : List Char} (hrest : rest.head? ≠ some 'i') :
    readImports f extension ((lines f extension imports).toList ++ rest) = (imports, rest) := by
  induction imports with
  | nil =>
    change readImports f extension rest = _
    rw [readImports, imported?_eq_none f extension hrest]
  | cons name imports ih =>
    obtain ⟨hname, himports⟩ := List.forall_mem_cons.mp h
    have hshorter :=
      length_lt_line_append f extension name ((lines f extension imports).toList ++ rest)
    rw [toList_lines_cons, List.append_assoc, readImports, imported?_line f extension hname]
    dsimp only
    rw [if_pos hshorter, ih himports]

/-! ## Whole files -/

def reactFrame : Frame := ⟨"  return null;\n", "  return (\n    ", "\n  );\n"⟩

def vueFrame : Frame := ⟨"", "  ", "\n"⟩

def functionOpening (name : String) : String := "const " ++ name ++ " = () => \x7b\n"

def functionClosing (name : String) : String := "\x7d;\n\nexport default " ++ name ++ ";\n"

def gap (imports : List String) : String := if imports.isEmpty then "" else "\n"

/-- The text in front of the component: imports, and what keeps them apart from it. -/
def front (f : Framework) (extension : String) (imports : List String) : String :=
  match f with
  | .react => lines .react extension imports ++ gap imports
  | .vue => "<script setup>\n" ++ lines .vue extension imports ++ "</script>\n\n"
  | .html | .angular => ""

/-- The component itself: a function, a template or the markup alone. -/
def component (f : Framework) (name markup : String) : String :=
  match f with
  | .react => functionOpening name ++ reactFrame.body markup ++ functionClosing name
  | .vue => "<template>\n" ++ vueFrame.body markup ++ "</template>\n"
  | .html | .angular => markup ++ "\n"

theorem contents_eq (f : Framework) (name markup extension : String) (imports : List String) :
    f.contents name markup imports extension =
      front f extension imports ++ component f name markup := by
  cases f with
  | html => exact String.empty_append.symm
  | angular => exact String.empty_append.symm
  | react =>
    unfold Framework.contents Framework.reactContents front component lines gap functionOpening
      functionClosing
    dsimp only
    simp only [← String.append_assoc]
    rfl
  | vue =>
    have hborder : "</script>\n\n<template>\n" = "</script>\n\n" ++ "<template>\n" := rfl
    unfold Framework.contents Framework.vueContents front component lines
    dsimp only
    rw [hborder]
    simp only [← String.append_assoc]
    rfl

example : Framework.contents .vue "Page" "" [] "vue" =
    "<script setup>\n</script>\n\n<template>\n</template>\n" := by
  decide +kernel

/-- The name and the markup of a component that is a function. -/
def function? (cs : List Char) : Option (String × String) :=
  let name := word (cs.drop "const ".toList.length)
  ((between? (functionOpening name) (functionClosing name) cs).bind reactFrame.markup?).map
    (name, ·)

/-- The markup of a component that is a template. -/
def template? (cs : List Char) : Option String :=
  (between? "<template>\n" "</template>\n" cs).bind vueFrame.markup?

def readReact (cs : List Char) : Option SourceText :=
  let (imports, rest) := readImports .react "" cs
  ((rest.dropPrefix? (gap imports).toList).bind function?).map fun (name, markup) =>
    ⟨some name, imports, markup⟩

def readVue (extension : String) (cs : List Char) : Option SourceText :=
  (cs.dropPrefix? "<script setup>\n".toList).bind fun cs =>
    let (imports, rest) := readImports .vue extension cs
    ((rest.dropPrefix? "</script>\n\n".toList).bind template?).map fun markup =>
      ⟨none, imports, markup⟩

/-- Reads the contents of a file that has this extension. -/
def read (f : Framework) (extension contents : String) : Option SourceText :=
  match f with
  | .react => readReact contents.toList
  | .vue => readVue extension contents.toList
  | .html | .angular =>
    (between? "" "\n" contents.toList).map fun markup => ⟨none, [], String.ofList markup⟩

theorem between?_around (opening body closing : String) :
    between? opening closing (opening ++ body ++ closing).toList = some body.toList := by
  rw [String.toList_append, String.toList_append, List.append_assoc, between?_append]

theorem function?_component {name : String} (hname : ' ' ∉ name.toList) (markup : String) :
    function? (component .react name markup).toList = some (name, markup) := by
  have hread : word ((component .react name markup).toList.drop "const ".toList.length) = name := by
    unfold component functionOpening
    simp only [String.toList_append, List.append_assoc, List.drop_left]
    exact word_append hname _
  unfold function?
  rw [hread]
  have hbody : between? (functionOpening name) (functionClosing name)
      (component .react name markup).toList = some (reactFrame.body markup).toList :=
    between?_around _ _ _
  dsimp only
  rw [hbody, Option.bind_some, Frame.markup?_body (by unfold Frame.Distinct; decide),
    Option.map_some]

theorem template?_component (name markup : String) :
    template? (component .vue name markup).toList = some markup := by
  have hbody : between? "<template>\n" "</template>\n" (component .vue name markup).toList =
      some (vueFrame.body markup).toList := between?_around _ _ _
  unfold template?
  rw [hbody, Option.bind_some, Frame.markup?_body (by unfold Frame.Distinct; decide)]

theorem readReact_contents {name : String} (hname : ' ' ∉ name.toList) (markup : String)
    {imports : List String} (himports : ∀ i ∈ imports, ' ' ∉ i.toList) (extension : String) :
    readReact (Framework.contents .react name markup imports extension).toList =
      some ⟨some name, imports, markup⟩ := by
  have hrest : ((gap imports).toList ++ (component .react name markup).toList).head? ≠
      some 'i' := by
    unfold gap component functionOpening
    split <;> simp [String.toList_append]
  have hlines : (Framework.contents .react name markup imports extension).toList =
      (lines .react "" imports).toList ++
        ((gap imports).toList ++ (component .react name markup).toList) := by
    have hfront : front .react extension imports = lines .react "" imports ++ gap imports := rfl
    simp only [contents_eq, hfront, String.toList_append, List.append_assoc]
  rw [hlines]
  unfold readReact
  rw [readImports_lines .react "" himports hrest]
  dsimp only
  rw [dropPrefix?_append, Option.bind_some, function?_component hname]
  rfl

theorem readVue_contents (name markup : String) {imports : List String}
    (himports : ∀ i ∈ imports, ' ' ∉ i.toList) (extension : String) :
    readVue extension (Framework.contents .vue name markup imports extension).toList =
      some ⟨none, imports, markup⟩ := by
  have hrest : ("</script>\n\n".toList ++ (component .vue name markup).toList).head? ≠
      some 'i' := by
    simp
  have hlines : (Framework.contents .vue name markup imports extension).toList =
      "<script setup>\n".toList ++ ((lines .vue extension imports).toList ++
        ("</script>\n\n".toList ++ (component .vue name markup).toList)) := by
    have hfront : front .vue extension imports =
        "<script setup>\n" ++ lines .vue extension imports ++ "</script>\n\n" := rfl
    simp only [contents_eq, hfront, String.toList_append, List.append_assoc]
  rw [hlines]
  unfold readVue
  rw [dropPrefix?_append, Option.bind_some, readImports_lines .vue extension himports hrest]
  dsimp only
  rw [dropPrefix?_append, Option.bind_some, template?_component]
  rfl

/-- The contents of a file, as they are read back. -/
theorem read_contents (f : Framework) {name : String} (hname : ' ' ∉ name.toList) (markup : String)
    {imports : List String} (himports : ∀ i ∈ imports, ' ' ∉ i.toList) (extension : String) :
    read f extension (f.contents name markup imports extension) =
      some ⟨if f = .react then some name else none,
        if f.importsComponents then imports else [], markup⟩ := by
  cases f with
  | react => exact readReact_contents hname markup himports extension
  | vue => exact readVue_contents name markup himports extension
  | html | angular =>
    unfold read Framework.contents
    dsimp only
    rw [String.toList_append, ← List.nil_append (_ ++ _)]
    change Option.map _ (between? "" "\n" ("".toList ++ (markup.toList ++ "\n".toList))) = _
    rw [between?_append, Option.map_some, String.ofList_toList]
    rfl

end SourceText

/-! ## Files of conversions -/

namespace Element

theorem IsComponentName.blank_notMem {cs : List Char} (h : IsComponentName cs) : ' ' ∉ cs :=
  fun hblank => absurd (h.1.2 ' ' hblank) (by decide)

mutual

theorem Legible.isComponentName_of_mem : {e : Element} → e.Legible → {name : String} →
    name ∈ e.references → IsComponentName name.toList
  | image _ _, _, _, h | imageContainer _ _, _, _, h | text _ _, _, _, h | label _ _, _, _, h
  | input _ _, _, _, h => absurd h List.not_mem_nil
  | table _ _, hlegible, _, h =>
    (List.mem_append.mp h).elim (isComponentName_of_mem_referencesOf hlegible.1)
      (isComponentName_of_mem_referencesOf hlegible.2)
  | headingCell _ _, hlegible, _, h | dataCell _ _, hlegible, _, h
  | container _ _, hlegible, _, h => isComponentName_of_mem_referencesOf hlegible.1 h
  | reference _, hlegible, _, h => List.mem_singleton.mp h ▸ hlegible

theorem isComponentName_of_mem_referencesOf : {es : List Element} → LegibleAll es →
    {name : String} → name ∈ referencesOf es → IsComponentName name.toList
  | [], _, _, h => absurd h List.not_mem_nil
  | _ :: _, hlegible, _, h =>
    (List.mem_append.mp h).elim hlegible.1.isComponentName_of_mem
      (isComponentName_of_mem_referencesOf hlegible.2)

end

end Element

namespace Component

variable (source : Source) (o : Options) (catalogue : Catalogue) (fileKey : String) (root : Node)

theorem blank_notMem_name_ofRoot :
    ' ' ∉ (ofRoot source o catalogue fileKey root).file.name.toList := by
  rw [name_file_ofRoot]
  have hname : ∀ raw, ' ' ∉ (componentName raw).toList :=
    fun raw => (isComponentName_componentName raw).blank_notMem
  rcases o.nameFor_eq_or (componentName root.layer.displayName) with hown | ⟨given, _, hgiven⟩
  · rw [hown]
    exact hname _
  · rw [hgiven]
    exact hname given

theorem blank_notMem_import_ofRoot :
    ∀ i ∈ (ofRoot source o catalogue fileKey root).imports, ' ' ∉ i.toList := by
  intro i hi
  have hlegible : LegibleAll
      (Conversion.ofRoot source o catalogue fileKey root).1.element.toList :=
    (legibleAll_iff _).mpr fun e he =>
      Conversion.legible_ofRoot source o catalogue fileKey root e (Option.mem_toList.mp he)
  have himports := Conversion.imports_ofRoot source o catalogue fileKey root
  change i ∈ (Conversion.ofRoot source o catalogue fileKey root).1.imports at hi
  rw [himports, List.mem_eraseDups] at hi
  exact (isComponentName_of_mem_referencesOf hlegible hi).blank_notMem

/-- The imports in the file of a conversion are the components that its markup refers to. -/
theorem read_contents_ofRoot (hf : o.framework.importsComponents = true) :
    ∃ text tags,
      SourceText.read o.framework o.extension
        (ofRoot source o catalogue fileKey root).file.contents = some text ∧
      readTags o.framework text.markup = some tags ∧
      text.imports.Nodup ∧ ∀ name, name ∈ text.imports ↔ name ∈ Tag.referencesOf tags := by
  have hread := SourceText.read_contents o.framework
    (blank_notMem_name_ofRoot source o catalogue fileKey root)
    ((Conversion.ofRoot source o catalogue fileKey root).1.markup o.framework)
    (blank_notMem_import_ofRoot source o catalogue fileKey root) o.extension
  rw [if_pos hf] at hread
  refine ⟨_, _, hread,
    readTags_getD o.framework (Conversion.legible_ofRoot source o catalogue fileKey root), ?_, ?_⟩
  · change (Conversion.ofRoot source o catalogue fileKey root).1.imports.Nodup
    rw [Conversion.ofRoot_eq]
    exact Imports.nodup _
  · intro name
    change name ∈ (Conversion.ofRoot source o catalogue fileKey root).1.imports ↔ _
    rw [Conversion.imports_ofRoot, List.mem_eraseDups, references_tags]

/-- A file has one line for each import, in order and in front of the component, or else is the
markup and the end of a line. The imports, the markup, whatever it is, and the name of a function
are read back from it. So the file of a conversion imports each component that its markup refers
to once, and no other. -/
theorem contents_are_read_back :
    (∀ (f : Framework) (name markup : String) (imports : List String) (extension : String),
      ' ' ∉ name.toList → (∀ i ∈ imports, ' ' ∉ i.toList) →
        f.contents name markup imports extension =
            SourceText.front f extension imports ++ SourceText.component f name markup ∧
          SourceText.read f extension (f.contents name markup imports extension) =
            some ⟨if f = .react then some name else none,
              if f.importsComponents then imports else [], markup⟩) ∧
      (∀ (f : Framework) (name markup : String) (imports : List String) (extension : String),
        f.importsComponents = false → f.contents name markup imports extension = markup ++ "\n") ∧
      ∀ {σ : Type} (store : Store σ) (s : σ) (source : Source) (o : Options) (fileKey id : String)
        (c : Component), Made store s source o fileKey id c → o.framework.importsComponents = true →
          ∃ text tags, SourceText.read o.framework o.extension c.file.contents = some text ∧
            readTags o.framework text.markup = some tags ∧
            text.imports.Nodup ∧ ∀ name, name ∈ text.imports ↔ name ∈ Tag.referencesOf tags := by
  refine ⟨fun f name markup imports extension hname himports => ?_,
    fun f name markup imports extension hf => ?_, fun store s source o fileKey id c hmade hf => ?_⟩
  · exact ⟨SourceText.contents_eq f name markup extension imports,
      SourceText.read_contents f hname markup himports extension⟩
  · cases f with
    | react | vue => cases hf
    | html | angular => rfl
  · obtain ⟨root, _, rfl⟩ := exists_root_of_made store s source o fileKey id hmade
    exact read_contents_ofRoot source o (store.catalogue s o) fileKey root hf

/-- Markup with lines like those of a file around it. -/
def fileInMarkup : String :=
  "<p>\n  );\n\x7d;\n\nexport default Page;\n</p>\nimport Menu from \"./Menu\";\n</template>\n"

theorem page_contents_are_read_back :
    (' ' ∉ "Page".toList ∧ (∀ i ∈ ["Card", "Avatar"], ' ' ∉ i.toList) ∧
        SourceText.read .react "jsx"
            (Framework.contents .react "Page" fileInMarkup ["Card", "Avatar"] "jsx") =
          some ⟨some "Page", ["Card", "Avatar"], fileInMarkup⟩ ∧
        SourceText.read .vue "vue"
            (Framework.contents .vue "Page" fileInMarkup ["Card", "Avatar"] "vue") =
          some ⟨none, ["Card", "Avatar"], fileInMarkup⟩) ∧
      (Framework.importsComponents .html = false ∧
        Framework.contents .html "Page" fileInMarkup ["Card"] "html" = fileInMarkup ++ "\n") ∧
      ∃ c, Made Shelf.store cardShelf (Conversion.sourceOf pageWithCard) plainReact "FILE" "1:1" c ∧
        plainReact.framework.importsComponents = true ∧ c.imports = ["Card"] ∧
        ∃ text tags, SourceText.read .react "jsx" c.file.contents = some text ∧
          readTags .react text.markup = some tags ∧
          text.imports.Nodup ∧ ∀ name, name ∈ text.imports ↔ name ∈ Tag.referencesOf tags := by
  have hname : ' ' ∉ "Page".toList := by decide
  have himports : ∀ i ∈ ["Card", "Avatar"], ' ' ∉ i.toList := by decide
  have hmade : Made Shelf.store cardShelf (Conversion.sourceOf pageWithCard) plainReact "FILE" "1:1"
      _ := .inl ((render_eq_ok_iff _ _ _ _ _).mpr ⟨pageWithCard, rfl, rfl⟩)
  obtain ⟨hread, hplain, hmadeRead⟩ := contents_are_read_back
  refine ⟨⟨hname, himports, ?_, ?_⟩, ⟨rfl, hplain _ _ _ _ _ rfl⟩, _, hmade, rfl, ?_, ?_⟩
  · exact (hread .react "Page" fileInMarkup ["Card", "Avatar"] "jsx" hname himports).2
  · exact (hread .vue "Page" fileInMarkup ["Card", "Avatar"] "vue" hname himports).2
  · simp only [ofRoot, ofConversion, Conversion.ofRoot, inReadingOrder_pageWithCard]
    decide +kernel
  · exact hmadeRead _ _ _ _ _ _ _ hmade rfl

end Component

end DesignComponents
