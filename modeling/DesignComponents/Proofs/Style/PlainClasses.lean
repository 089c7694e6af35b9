import DesignComponents.Color.Palette
import DesignComponents.Proofs.Color.Entries
import DesignComponents.Proofs.Style.Spelling
import DesignComponents.Markup.Fragment

/-!
# The characters of a layer's classes

Whatever numbers and colors a layer has, its classes are spelled with letters, digits, hyphens,
points and square brackets. So they need no escaping, none of them holds a blank, and none of
them is the class that inputs have besides.
-/

namespace DesignComponents

def isClassChar (c : Char) : Bool :=
  c.isAlphanum || c == '-' || c == '.' || c == '[' || c == ']'

def PlainText (s : String) : Prop := ∀ c ∈ s.toList, isClassChar c = true

instance (s : String) : Decidable (PlainText s) :=
  decidable_of_iff (s.toList.all isClassChar = true) List.all_eq_true

theorem PlainText.append {s t : String} (hs : PlainText s) (ht : PlainText t) :
    PlainText (s ++ t) := by
  intro c hc
  rw [String.toList_append] at hc
  rcases List.mem_append.mp hc with hc | hc
  · exact hs c hc
  · exact ht c hc

theorem bare_of_isClassChar {c : Char} (h : isClassChar c = true) : ClassList.Bare c := by
  constructor
  · rintro rfl
    exact absurd h (by decide)
  · intro hm
    simp only [Markup.reservedInValues, List.mem_cons, List.not_mem_nil, or_false] at hm
    rcases hm with rfl | rfl | rfl | rfl <;> exact absurd h (by decide)

/-! ## Numbers -/

theorem isClassChar_of_isDigit {c : Char} (h : c.isDigit = true) : isClassChar c = true := by
  simp [isClassChar, Char.isAlphanum, h]

theorem isClassChar_of_mem_toDigits {n : Nat} {c : Char} (h : c ∈ Nat.toDigits 10 n) :
    isClassChar c = true :=
  isClassChar_of_isDigit (Nat.isDigit_of_mem_toDigits (by decide) (by decide) h)

theorem isClassChar_of_mem_zeros {n : Nat} {c : Char} (h : c ∈ List.replicate n '0') :
    isClassChar c = true := by
  rw [List.eq_of_mem_replicate h]
  decide

theorem Decimal.isClassChar_of_mem_positional {d : Decimal} {c : Char} (h : c ∈ d.positional) :
    isClassChar c = true := by
  have hpoint : isClassChar '.' = true := by decide
  have hzero : isClassChar '0' = true := by decide
  simp only [Decimal.positional] at h
  split at h
  · rcases List.mem_append.mp h with h | h
    · exact isClassChar_of_mem_toDigits h
    · exact isClassChar_of_mem_zeros h
  · split at h
    · rcases List.mem_append.mp h with h | h
      · exact isClassChar_of_mem_toDigits (List.mem_of_mem_take h)
      · rcases List.mem_cons.mp h with rfl | h
        · exact hpoint
        · exact isClassChar_of_mem_toDigits (List.mem_of_mem_drop h)
    · rcases List.mem_cons.mp h with rfl | h
      · exact hzero
      · rcases List.mem_cons.mp h with rfl | h
        · exact hpoint
        · rcases List.mem_append.mp h with h | h
          · exact isClassChar_of_mem_zeros h
          · exact isClassChar_of_mem_toDigits h

theorem isClassChar_of_mem_signText {negative : Bool} {c : Char}
    (h : c ∈ Binary.signText negative) : isClassChar c = true := by
  cases negative with
  | false => exact absurd h List.not_mem_nil
  | true =>
    rw [List.mem_singleton.mp h]
    decide

theorem Binary.plainText_plain {f : BinaryFormat} (x : Binary f) : PlainText x.plain := by
  intro c hc
  rw [Binary.plain, String.toList_ofList] at hc
  cases x with
  | nan =>
    have hall : "NaN".toList.all isClassChar = true := by decide
    exact List.all_eq_true.mp hall c hc
  | infinite s =>
    rcases List.mem_append.mp hc with hc | hc
    · exact isClassChar_of_mem_signText hc
    · have hall : "inf".toList.all isClassChar = true := by decide
      exact List.all_eq_true.mp hall c hc
  | finite s m e h =>
    rcases List.mem_append.mp hc with hc | hc
    · exact isClassChar_of_mem_signText hc
    · exact Decimal.isClassChar_of_mem_positional hc

/-! ## Suffixes -/

theorem plainText_bracketed (x : Double) : PlainText (bracketed x) :=
  (PlainText.append (by decide) x.plainText_plain).append (by decide)

theorem Scale.mem_of_find? {key : Int} {suffix : String} {s : Scale}
    (h : s.find? key = some suffix) : (key, suffix) ∈ s := by
  induction s with
  | nil => exact absurd h (by simp [Scale.find?])
  | cons entry s ih =>
    obtain ⟨k, named⟩ := entry
    rw [Scale.find?] at h
    split at h
    · rename_i hk
      rw [hk, Option.some.inj h]
      exact List.mem_cons_self
    · exact List.mem_cons_of_mem _ (ih h)

theorem Scale.plainText_suffix? {s : Scale} (hs : ∀ entry ∈ s, PlainText entry.2) {x : Double}
    {suffix : String} (h : s.suffix? x = some suffix) : PlainText suffix := by
  obtain ⟨key, _, hkey⟩ := Option.bind_eq_some_iff.mp h
  exact hs _ (Scale.mem_of_find? hkey)

theorem plainText_getD_bracketed {s : Scale} (hs : ∀ entry ∈ s, PlainText entry.2) (x : Double) :
    PlainText ((s.suffix? x).getD (bracketed x)) := by
  cases h : s.suffix? x with
  | none => exact plainText_bracketed x
  | some suffix => exact Scale.plainText_suffix? hs h

theorem plainText_spacingSuffix (x : Double) : PlainText (spacingSuffix x) :=
  plainText_getD_bracketed (by decide) _

theorem plainText_radiusSuffix (x : Double) : PlainText (radiusSuffix x) :=
  plainText_getD_bracketed (by decide) _

theorem plainText_fontSizeSuffix (x : Double) : PlainText (fontSizeSuffix x) :=
  plainText_getD_bracketed (by decide) _

theorem plainText_fontWeightSuffix? {x : Double} {suffix : String}
    (h : fontWeightSuffix? x = some suffix) : PlainText suffix :=
  Scale.plainText_suffix? (by decide) h

/-! ## Colors -/

theorem Palette.plainText_name {t : ColorToken} (h : t ∈ Palette.tokens) : PlainText t.name := by
  rcases List.mem_append.mp h with h | h
  · have hsingles : ∀ t ∈ Palette.singles, PlainText t.name := by decide
    exact hsingles t h
  · have hfamilies : ∀ entry ∈ Palette.families, PlainText entry.1 := by decide
    have hshades : ∀ shade ∈ Palette.shades, PlainText shade := by decide
    obtain ⟨⟨name, rgbs⟩, hfamily, ht⟩ := List.mem_flatMap.mp h
    obtain ⟨⟨shade, rgb⟩, hshade, rfl⟩ := List.mem_map.mp ht
    have hname : PlainText name := hfamilies _ hfamily
    exact (hname.append (by decide)).append (hshades shade (List.of_mem_zip hshade).1)

/-- Every color has the name of one of the palette. -/
theorem Color.exists_paletteName (c : Color) (opacity : Double) :
    ∃ t ∈ Palette.tokens, t.name = c.paletteName opacity := by
  rw [Color.paletteName]
  cases h : palette.resolve? (c.toRgba opacity) with
  | none =>
    have hblack : ∃ t ∈ Palette.singles, t.name = "black" := by decide
    obtain ⟨t, ht, hname⟩ := hblack
    exact ⟨t, List.mem_append_left _ ht, hname⟩
  | some name =>
    obtain ⟨t, ht, hname⟩ := ColorTable.name_of_resolve? h
    exact ⟨t, ColorTable.mem_of_mem_ofTokens ht, hname⟩

theorem Color.plainText_paletteName (c : Color) (opacity : Double) :
    PlainText (c.paletteName opacity) := by
  obtain ⟨t, ht, hname⟩ := c.exists_paletteName opacity
  rw [← hname]
  exact Palette.plainText_name ht

/-! ## Classes -/

theorem plainText_of_spelled {family : StyleFamily} {t : String} (h : Spelled family t) :
    PlainText t := by
  cases h with
  | width x => exact PlainText.append (by decide) (plainText_spacingSuffix x)
  | height x => exact PlainText.append (by decide) (plainText_spacingSuffix x)
  | padding hstem x =>
    have hstems : ∀ stem ∈ paddingStems, PlainText stem := by decide
    exact (hstems _ hstem).append (plainText_spacingSuffix x)
  | fontSize x => exact PlainText.append (by decide) (plainText_fontSizeSuffix x)
  | fontWeight hweight => exact PlainText.append (by decide) (plainText_fontWeightSuffix? hweight)
  | background c => exact PlainText.append (by decide) (c.plainText_paletteName 1)
  | border => decide
  | borderColor c opacity => exact PlainText.append (by decide) (c.plainText_paletteName opacity)
  | rounded => decide
  | radius x => exact PlainText.append (by decide) (plainText_radiusSuffix x)
  | shadow htoken =>
    have hsizes : ∀ token ∈ shadowSizes, PlainText token := by decide
    exact hsizes _ htoken
  | shadowColor c => exact PlainText.append (by decide) (c.plainText_paletteName 1)
  | layout htoken =>
    have hwords : ∀ token ∈ layoutWords, PlainText token := by decide
    exact hwords _ htoken
  | textColor c => exact PlainText.append (by decide) (c.plainText_paletteName 1)
  | gap x => exact PlainText.append (by decide) (plainText_spacingSuffix x)

namespace ClassList

def Plain (c : ClassList) : Prop := ∀ t ∈ c.tokens, PlainText t

theorem plain_empty : empty.Plain := fun _ h => absurd h List.not_mem_nil

theorem Plain.append {c d : ClassList} (hc : c.Plain) (hd : d.Plain) : (c ++ d).Plain := by
  intro t ht
  rcases mem_tokens_append ht with h | h
  · exact hc t h
  · exact hd t h

theorem Plain.allBare {c : ClassList} (h : c.Plain) : c.AllBare :=
  fun t ht ch hch => bare_of_isClassChar (h t ht ch hch)

/-- The class of inputs holds a colon. -/
theorem Plain.inputClass_not_mem {c : ClassList} (h : c.Plain) : Markup.inputClass ∉ c.tokens :=
  fun hm => absurd (h _ hm) (by unfold Markup.inputClass; decide)

end ClassList

theorem StyleFamily.plain (family : StyleFamily) (l : Layer) : (family.classes l).Plain :=
  fun _ ht => plainText_of_spelled (spelled ht)

namespace Layer

theorem plain_textColorClasses (l : Layer) : l.textColorClasses.Plain :=
  StyleFamily.textColor.plain l

theorem plain_foldl_append {l : Layer} {done : ClassList} (hdone : done.Plain)
    (families : List StyleFamily) :
    (families.foldl (fun done family => done ++ family.classes l) done).Plain := by
  induction families generalizing done with
  | nil => exact hdone
  | cons family families ih => exact ih (hdone.append (family.plain l))

/-- The classes of every layer are plain. -/
theorem plain_classes (l : Layer) : l.classes.Plain :=
  plain_foldl_append ClassList.plain_empty StyleFamily.all

end Layer

end DesignComponents
