import DesignComponents.Proofs.Style.PlainClasses

/-!
# Families of classes

Every class tells the family that it belongs to, so no family takes a class from another one where
the classes of a layer are put together. The text of the classes holds those of each family
unchanged and in their order.
-/

namespace DesignComponents

namespace StyleFamily

/-! ## The family of a class -/

/-- What stands before the first hyphen of a class. -/
def stem (token : String) : List Char := token.toList.takeWhile (· ≠ '-')

def suffix (token : String) : List Char := (token.toList.dropWhile (· ≠ '-')).tail

/-- The suffix is the name of a font size or is written in brackets. -/
def namesFontSize (suffix : List Char) : Bool :=
  suffix.head? == some '[' || Scale.fontSizes.any fun entry => entry.2.toList == suffix

def stems : List (String × StyleFamily) :=
  [("w", size), ("h", size), ("p", padding), ("py", padding), ("px", padding), ("pt", padding),
    ("pb", padding), ("pl", padding), ("pr", padding), ("text", textColor), ("font", font),
    ("bg", background), ("border", border), ("rounded", radius), ("shadow", shadow),
    ("flex", layout), ("justify", layout), ("items", layout), ("gap", gap)]

/-- The family of a class by its stem. Sizes and colors of text have the same one, so there the
suffix decides. -/
def of? (token : String) : Option StyleFamily :=
  if stem token = "text".toList ∧ namesFontSize (suffix token) then some font
  else (stems.find? fun entry => entry.1.toList == stem token).map (·.2)

theorem stem_append {s : String} (h : '-' ∈ s.toList) (t : String) : stem (s ++ t) = stem s := by
  unfold stem
  rw [String.toList_append, List.takeWhile_append, if_neg]
  intro hlength
  have hwhole := (List.takeWhile_prefix (· ≠ '-')).eq_of_length hlength
  have hall := List.all_takeWhile (p := (· ≠ '-')) (l := s.toList)
  rw [hwhole] at hall
  exact absurd (List.all_eq_true.mp hall '-' h) (by decide)

theorem of?_append {s : String} (h : '-' ∈ s.toList) (htext : stem s ≠ "text".toList)
    (t : String) : of? (s ++ t) = of? s := by
  unfold of?
  rw [stem_append h, if_neg (not_and_of_not_left _ htext), if_neg (not_and_of_not_left _ htext)]

theorem suffix_text (t : String) : suffix ("text-" ++ t) = t.toList := by
  unfold suffix
  rw [String.toList_append]
  rfl

theorem of?_text (t : String) :
    of? ("text-" ++ t) = some (if namesFontSize t.toList then font else textColor) := by
  have hstem : stem ("text-" ++ t) = "text".toList := stem_append (by decide) t
  unfold of?
  rw [suffix_text, hstem]
  by_cases hsize : namesFontSize t.toList = true
  · rw [if_pos ⟨rfl, hsize⟩, if_pos hsize]
  · rw [if_neg (fun h => hsize h.2), if_neg hsize]
    decide

theorem namesFontSize_fontSizeSuffix (x : Double) :
    namesFontSize (fontSizeSuffix x).toList = true := by
  unfold fontSizeSuffix
  cases hnamed : Scale.fontSizes.suffix? x with
  | none =>
    have hbracket : (bracketed x).toList.head? = some '[' := by
      unfold bracketed
      rw [String.toList_append, String.toList_append]
      rfl
    rw [Option.getD_none, namesFontSize, hbracket]
    rfl
  | some name =>
    obtain ⟨key, _, hkey⟩ := Option.bind_eq_some_iff.mp hnamed
    have hany : (Scale.fontSizes.any fun entry => entry.2.toList == name.toList) = true :=
      List.any_eq_true.mpr ⟨_, Scale.mem_of_find? hkey, beq_self_eq_true _⟩
    rw [Option.getD_some, namesFontSize, hany, Bool.or_true]

/-- A name that is not empty and starts with no bracket. -/
def StartsBare (name : String) : Prop := name.toList.head?.any (· ≠ '[') = true

instance (name : String) : Decidable (StartsBare name) := by
  unfold StartsBare
  infer_instance

theorem namesFontSize_shade {name : String} (hname : StartsBare name) (shade : String) :
    namesFontSize (name ++ "-" ++ shade).toList = false := by
  obtain ⟨c, hc, hne⟩ := (Option.any_eq_true _ _).mp hname
  have hplain : ∀ entry ∈ Scale.fontSizes, '-' ∉ entry.2.toList := by decide
  have hhyphen : '-' ∈ (name ++ "-" ++ shade).toList := by simp
  have hhead : (name ++ "-" ++ shade).toList.head? = some c := by
    simp [String.toList_append, List.head?_append, hc]
  unfold namesFontSize
  rw [hhead, Bool.or_eq_false_iff]
  constructor
  · simpa using hne
  · rw [List.any_eq_false]
    intro entry hentry heq
    rw [beq_iff_eq] at heq
    exact hplain entry hentry (heq ▸ hhyphen)

theorem namesFontSize_paletteName (c : Color) (opacity : Double) :
    namesFontSize (c.paletteName opacity).toList = false := by
  obtain ⟨t, ht, hname⟩ := c.exists_paletteName opacity
  rw [← hname]
  rcases List.mem_append.mp ht with hsingle | hshade
  · have hsingles : ∀ t ∈ Palette.singles, namesFontSize t.name.toList = false := by decide
    exact hsingles t hsingle
  · have hnames : ∀ entry ∈ Palette.families, StartsBare entry.1 := by decide
    obtain ⟨⟨name, rgbs⟩, hfamily, hmem⟩ := List.mem_flatMap.mp hshade
    obtain ⟨⟨shade, rgb⟩, _, rfl⟩ := List.mem_map.mp hmem
    exact namesFontSize_shade (hnames _ hfamily) shade

/-- Every class is of the family that gives it. -/
theorem of?_eq_of_spelled {family : StyleFamily} {t : String} (h : Spelled family t) :
    of? t = some family := by
  cases h with
  | width x => exact of?_append (by decide) (by decide) _
  | height x => exact of?_append (by decide) (by decide) _
  | padding hstem x =>
    have hstems : ∀ s ∈ paddingStems,
        '-' ∈ s.toList ∧ stem s ≠ "text".toList ∧ of? s = some padding := by decide
    obtain ⟨hhyphen, htext, hfamily⟩ := hstems _ hstem
    rw [of?_append hhyphen htext, hfamily]
  | fontSize x => rw [of?_text, if_pos (namesFontSize_fontSizeSuffix x)]
  | fontWeight _ => exact of?_append (by decide) (by decide) _
  | background c => exact of?_append (by decide) (by decide) _
  | border => decide
  | borderColor c opacity => exact of?_append (by decide) (by decide) _
  | rounded => decide
  | radius x => exact of?_append (by decide) (by decide) _
  | shadow htoken =>
    have hsizes : ∀ token ∈ shadowSizes, of? token = some shadow := by decide
    exact hsizes _ htoken
  | shadowColor c => exact of?_append (by decide) (by decide) _
  | layout htoken =>
    have hwords : ∀ token ∈ layoutWords, of? token = some layout := by decide
    exact hwords _ htoken
  | textColor c =>
    rw [of?_text, if_neg]
    rw [namesFontSize_paletteName]
    decide
  | gap x => exact of?_append (by decide) (by decide) _

theorem of?_eq_of_mem {family : StyleFamily} {l : Layer} {t : String}
    (h : t ∈ (family.classes l).tokens) : of? t = some family := of?_eq_of_spelled (spelled h)

/-! ## Families put together -/

/-- As long as no family comes twice, each one is put whole behind the classes before. -/
theorem tokens_foldl_append (l : Layer) {families : List StyleFamily} (hnodup : families.Nodup)
    {done : ClassList} (hdone : ∀ t ∈ done.tokens, ∀ family ∈ families, of? t ≠ some family) :
    (families.foldl (fun done family => done ++ family.classes l) done).tokens =
      done.tokens ++ families.flatMap fun family => (family.classes l).tokens := by
  induction families generalizing done with
  | nil => exact (List.append_nil _).symm
  | cons family families ih =>
    obtain ⟨hnew, hnodup⟩ := List.nodup_cons.mp hnodup
    have hfirst : (done ++ family.classes l).tokens = done.tokens ++ (family.classes l).tokens := by
      apply ClassList.tokens_append
      intro t ht hmem
      exact hdone t ht family List.mem_cons_self (of?_eq_of_mem hmem)
    have hnext : ∀ t ∈ (done ++ family.classes l).tokens,
        ∀ later ∈ families, of? t ≠ some later := by
      intro t ht later hlater
      rw [hfirst] at ht
      rcases List.mem_append.mp ht with ht | ht
      · exact hdone t ht later (List.mem_cons_of_mem family hlater)
      · rw [of?_eq_of_mem ht]
        intro heq
        exact hnew (Option.some.inj heq ▸ hlater)
    rw [List.foldl_cons, ih hnodup hnext, hfirst, List.flatMap_cons, List.append_assoc]

theorem tokens_classes (l : Layer) :
    l.classes.tokens = all.flatMap fun family => (family.classes l).tokens := by
  have hnone : ∀ t ∈ ClassList.empty.tokens, ∀ family ∈ all, of? t ≠ some family :=
    fun _ ht => absurd ht List.not_mem_nil
  exact tokens_foldl_append l nodup_all hnone

theorem filter_flatMap_classes (l : Layer) (family : StyleFamily) {families : List StyleFamily}
    (hnodup : families.Nodup) :
    (families.flatMap fun other => (other.classes l).tokens).filter (of? · = some family) =
      if family ∈ families then (family.classes l).tokens else [] := by
  induction families with
  | nil => rfl
  | cons other families ih =>
    obtain ⟨hnew, hnodup⟩ := List.nodup_cons.mp hnodup
    rw [List.flatMap_cons, List.filter_append, ih hnodup]
    by_cases heq : other = family
    · have hown : (other.classes l).tokens.filter (of? · = some family) =
          (other.classes l).tokens := by
        apply List.filter_eq_self.mpr
        intro t ht
        rw [of?_eq_of_mem ht, heq]
        exact decide_eq_true rfl
      rw [hown, ← heq, if_neg hnew, if_pos List.mem_cons_self, List.append_nil]
    · have hnone : (other.classes l).tokens.filter (of? · = some family) = [] := by
        apply List.filter_eq_nil_iff.mpr
        intro t ht
        rw [of?_eq_of_mem ht]
        simpa using heq
      have hiff : family ∈ other :: families ↔ family ∈ families := by
        simp [Ne.symm heq]
      rw [hnone, List.nil_append]
      simp only [hiff]

/-- The classes of one family are those of a layer's classes that are of this family. -/
theorem filter_tokens_classes (l : Layer) (family : StyleFamily) :
    l.classes.tokens.filter (of? · = some family) = (family.classes l).tokens := by
  rw [tokens_classes, filter_flatMap_classes l family nodup_all, if_pos family.mem_all]

end StyleFamily

open StyleFamily

/-- The classes of a layer are those of the ten families one after the other, none lost. The parts
of their text between single blanks are these classes, none of them empty and none twice, and
those of each family can be picked out. So two layers have the same text just when they agree in
every family. -/
theorem Layer.classes_faithful (l m : Layer) :
    l.classes.tokens = l.sizeClasses.tokens ++ l.paddingClasses.tokens ++ l.fontClasses.tokens ++
        l.backgroundClasses.tokens ++ l.borderClasses.tokens ++ l.radiusClasses.tokens ++
        l.shadowClasses.tokens ++ l.layoutClasses.tokens ++ l.textColorClasses.tokens ++
        l.gapClasses.tokens ∧
      ClassList.parts l.classes.text = l.classes.tokens ∧
      "" ∉ l.classes.tokens ∧ l.classes.tokens.Nodup ∧
      (∀ family : StyleFamily, (family.classes l).tokens =
        (ClassList.parts l.classes.text).filter (of? · = some family)) ∧
      (l.classes.text = m.classes.text ↔ ∀ family ∈ Layer.families, family l = family m) := by
  have hparts : ∀ l : Layer, ClassList.parts l.classes.text = l.classes.tokens :=
    fun l => ClassList.parts_text l.plain_classes.allBare
  have hpicked : ∀ (l : Layer) (family : StyleFamily), (family.classes l).tokens =
      (ClassList.parts l.classes.text).filter (of? · = some family) := by
    intro l family
    rw [hparts, filter_tokens_classes]
  refine ⟨?_, hparts l, l.classes.no_empty, l.classes.nodup, hpicked l, ?_⟩
  · rw [tokens_classes]
    simp [all, StyleFamily.classes]
  · constructor
    · intro htext family hfamily
      rw [families_eq] at hfamily
      obtain ⟨f, _, rfl⟩ := List.mem_map.mp hfamily
      apply ClassList.ext
      rw [hpicked l, hpicked m, htext]
    · intro hsame
      have hfamilies : (fun family => (StyleFamily.classes family l).tokens) =
          fun family => (family.classes m).tokens := by
        funext family
        rw [hsame family.classes (families_eq ▸ List.mem_map_of_mem family.mem_all)]
      have htokens : l.classes.tokens = m.classes.tokens := by
        rw [tokens_classes, tokens_classes, hfamilies]
      rw [ClassList.ext htokens]

end DesignComponents
