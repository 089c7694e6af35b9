import DesignComponents.Proofs.Number.Decimals
import DesignComponents.Proofs.Number.Whole
import DesignComponents.Proofs.Style.Paddings

/-!
# Lengths read back

The classes of a layer tell its width, height and gap to the nearest pixel and its radius and font
size exactly. A length that is set and not zero has one class, from which it is read back, and any
other length has none. A length that no scale names is written out.
-/

namespace DesignComponents

open Binary StyleFamily

/-- The lengths of a layer that its classes tell. -/
inductive Measure
  | width
  | height
  | gap
  | radius
  | fontSize
  deriving DecidableEq, Repr

/-! ## Reading suffixes -/

/-- The pixels that a number stands for. -/
def plainPixels? (cs : List Char) : Option ℚ :=
  ((readPlain? cs).filter (·.isFinite)).map (·.toRat)

theorem plainPixels?_plainChars {x : Double} (h : x.isFinite = true) :
    plainPixels? x.plainChars = some x.toRat := by
  obtain ⟨s, m, e, hc, rfl⟩ := exists_of_isFinite h
  rw [plainPixels?, readPlain?_plainChars]
  rfl

/-- The pixels that are written out in brackets. -/
def bracket? : List Char → Option ℚ
  | '[' :: cs => (cs.dropSuffix? "px]".toList).bind plainPixels?
  | _ => none

theorem bracket?_bracketed {x : Double} (h : x.isFinite = true) :
    bracket? (bracketed x).toList = some x.toRat := by
  have htext : (bracketed x).toList = '[' :: (x.plainChars ++ "px]".toList) := by
    simp only [bracketed, Binary.plain, String.toList_append, String.toList_ofList]
    rfl
  have hsuffix : (x.plainChars ++ "px]".toList).dropSuffix? "px]".toList = some x.plainChars :=
    List.dropSuffix?_eq_some_iff.mpr ⟨_, rfl, beq_self_eq_true _⟩
  rw [htext, bracket?, hsuffix, Option.bind_some, plainPixels?_plainChars h]

namespace Measure

/-- Spacings are told to the nearest pixel and have numbers for names. -/
def isSpacing : Measure → Bool
  | width | height | gap => true
  | radius | fontSize => false

/-- The pixels that the names of a measure stand for. A radius without a name is one of four. -/
def named : Measure → List (String × Nat)
  | width | height | gap => [("px", 1)]
  | radius =>
    [("none", 0), ("sm", 2), ("", 4), ("md", 6), ("lg", 8), ("xl", 12), ("2xl", 16), ("3xl", 24),
      ("full", 9999)]
  | fontSize =>
    [("xs", 12), ("sm", 14), ("base", 16), ("lg", 18), ("xl", 20), ("2xl", 24), ("3xl", 30),
      ("4xl", 36), ("5xl", 48), ("6xl", 60), ("7xl", 72), ("8xl", 96), ("9xl", 128)]

/-- The pixels that a suffix stands for: those of a name, those in brackets or, where numbers are
names, four for each unit. -/
def pixels? (m : Measure) (suffix : String) : Option ℚ :=
  match m.named.lookup suffix with
  | some n => some n
  | none =>
    match bracket? suffix.toList with
    | some pixels => some pixels
    | none => if m.isSpacing then (plainPixels? suffix.toList).map (4 * ·) else none

/-- What of a value is told. -/
def meant (m : Measure) (q : ℚ) : ℚ := if m.isSpacing then awayFromZero q else q

def scale : Measure → Scale
  | width | height | gap => .spacings
  | radius => .radii
  | fontSize => .fontSizes

def rounded (m : Measure) (x : Double) : Double := if m.isSpacing then x.round else x

def suffix (m : Measure) (x : Double) : String :=
  (m.scale.suffix? (m.rounded x)).getD (bracketed (m.rounded x))

theorem rounded_spec (m : Measure) {x : Double} (h : x.isFinite = true) :
    (m.rounded x).isFinite = true ∧ (m.rounded x).toRat = m.meant x.toRat := by
  rw [rounded, meant]
  split
  · exact round_spec h
  · exact ⟨h, rfl⟩

/-- No name is written in brackets. -/
theorem lookup_bracketed (m : Measure) (x : Double) : m.named.lookup (bracketed x) = none := by
  have hnames : ∀ entry ∈ m.named, entry.1.toList.head? ≠ some '[' := by
    cases m <;> decide
  rw [List.lookup_eq_none_iff]
  intro entry hentry
  rw [bne_iff_ne]
  rintro heq
  refine hnames entry hentry ?_
  rw [← heq, bracketed, String.toList_append, String.toList_append]
  rfl

/-- Every name of a scale stands for its pixels. -/
theorem pixels?_scale (m : Measure) :
    ∀ entry ∈ m.scale, m.pixels? entry.2 = some (entry.1 : ℚ) := by
  cases m <;> decide +kernel

theorem pixels?_suffix (m : Measure) {x : Double} (h : x.isFinite = true) :
    m.pixels? (m.suffix x) = some (m.meant x.toRat) := by
  obtain ⟨hfinite, hvalue⟩ := m.rounded_spec h
  rw [suffix, ← hvalue]
  cases hnamed : m.scale.suffix? (m.rounded x) with
  | none =>
    rw [Option.getD_none, pixels?, m.lookup_bracketed, bracket?_bracketed hfinite]
  | some name =>
    obtain ⟨key, hkey, hname⟩ := Option.bind_eq_some_iff.mp hnamed
    rw [Option.getD_some, m.pixels?_scale _ (Scale.mem_of_find? hname),
      (toInt?_eq_some_iff hfinite key).mp hkey]

/-! ## Classes -/

/-- What the classes of a measure begin with. -/
def start : Measure → String
  | width => "w-"
  | height => "h-"
  | gap => "gap-"
  | radius => "rounded-"
  | fontSize => "text-"

/-- The class is one of the measure. Sizes and colors of text have the same stem, so there the
suffix decides. -/
def owns (m : Measure) (token : String) : Bool :=
  stem token == stem m.start && (m != fontSize || namesFontSize (StyleFamily.suffix token))

def read? (m : Measure) (token : String) : Option ℚ :=
  m.pixels? (String.ofList (StyleFamily.suffix token))

def token (m : Measure) (x : Double) : String :=
  if m = radius ∧ x.same 4 = true then "rounded" else m.start ++ m.suffix x

theorem isStem_start (m : Measure) : IsStem m.start := by
  cases m <;> decide

theorem owns_append (m : Measure) (x : Double) : m.owns (m.start ++ m.suffix x) = true := by
  have hstem : stem (m.start ++ m.suffix x) = stem m.start := m.isStem_start.stem_append _
  rw [owns, hstem, beq_self_eq_true, Bool.true_and]
  cases m with
  | width | height | gap | radius => rfl
  | fontSize =>
    change namesFontSize (StyleFamily.suffix ("text-" ++ fontSizeSuffix x)) = true
    rw [suffix_text]
    exact namesFontSize_fontSizeSuffix x

theorem owns_token (m : Measure) (x : Double) : m.owns (m.token x) = true := by
  rw [token]
  split
  · rename_i h
    rw [h.1]
    decide
  · exact m.owns_append x

theorem same_four_iff {x : Double} (h : x.isFinite = true) : x.same 4 = true ↔ x.toRat = 4 := by
  have hfour : (4 : Double).toRat = 4 := by decide +kernel
  rw [same_iff h (by decide), hfour]

theorem read?_token (m : Measure) {x : Double} (h : x.isFinite = true) :
    m.read? (m.token x) = some (m.meant x.toRat) := by
  rw [token]
  split
  · rename_i hfour
    rw [hfour.1, (same_four_iff h).mp hfour.2]
    decide +kernel
  · rw [read?, m.isStem_start.suffix_append, m.pixels?_suffix h]

theorem ne_radius_of_isSpacing {m : Measure} (h : m.isSpacing = true) : m ≠ radius := by
  rintro rfl
  cases h

/-- Zeros of both signs have the name of zero. -/
theorem suffix_eq_zero {m : Measure} (hm : m.isSpacing = true) {x : Double}
    (h : x.isFinite = true) (hzero : (m.rounded x).toRat = 0) : m.suffix x = "0" := by
  have hint := (toInt?_eq_some_iff (m.rounded_spec h).1 0).mpr (hzero.trans Int.cast_zero.symm)
  have hfound : m.scale.find? 0 = some "0" := by
    cases m with
    | width | height | gap => decide
    | radius | fontSize => cases hm
  rw [suffix, Scale.suffix?, hint, Option.bind_some, hfound, Option.getD_some]

/-- Two lengths other than zero have the same class if and only if they are told to be the same. -/
theorem token_eq_iff (m : Measure) {x y : Double} (hx : x.isFinite = true) (hy : y.isFinite = true)
    (hne : x.toRat ≠ 0) : m.token x = m.token y ↔ m.meant x.toRat = m.meant y.toRat := by
  obtain ⟨hxfinite, hxvalue⟩ := m.rounded_spec hx
  obtain ⟨hyfinite, hyvalue⟩ := m.rounded_spec hy
  constructor
  · intro htoken
    have hread := m.read?_token hx
    rw [htoken, m.read?_token hy] at hread
    exact (Option.some.inj hread).symm
  · intro hmeant
    by_cases hspacing : m.isSpacing = true
    · have hsame : (m.rounded x).toRat = (m.rounded y).toRat :=
        hxvalue.trans (hmeant.trans hyvalue.symm)
      have hsuffix : m.suffix x = m.suffix y := by
        by_cases hzero : (m.rounded x).toRat = 0
        · rw [suffix_eq_zero hspacing hx hzero, suffix_eq_zero hspacing hy (hsame.symm.trans hzero)]
        · rw [suffix, suffix, eq_of_toRat_eq (by decide) hxfinite hyfinite hsame hzero]
      have hradius := ne_radius_of_isSpacing hspacing
      rw [token, token, if_neg (not_and_of_not_left _ hradius),
        if_neg (not_and_of_not_left _ hradius), hsuffix]
    · rw [meant, meant, if_neg hspacing, if_neg hspacing] at hmeant
      rw [eq_of_toRat_eq (by decide) hx hy hmeant hne]

/-- The classes that name a length, with their pixels. -/
def words (m : Measure) : List (String × Int) :=
  let scaled := m.scale.map fun entry => (m.start ++ entry.2, entry.1)
  if m = radius then ("rounded", 4) :: scaled else scaled

theorem read?_words (m : Measure) : ∀ word ∈ m.words, m.read? word.1 = some (word.2 : ℚ) := by
  cases m <;> decide +kernel

theorem suffix_of_mem_scale (m : Measure) {x : Double} (h : x.isFinite = true) {n : Int}
    {name : String} (hmem : (n, name) ∈ m.scale) (hmeant : m.meant x.toRat = n) :
    m.suffix x = name := by
  obtain ⟨hfinite, hvalue⟩ := m.rounded_spec h
  have hfound : ∀ entry ∈ m.scale, m.scale.find? entry.1 = some entry.2 := by
    cases m <;> decide
  have hint := (toInt?_eq_some_iff hfinite n).mpr (hvalue.trans hmeant)
  rw [suffix, Scale.suffix?, hint, Option.bind_some, hfound _ hmem, Option.getD_some]

theorem token_of_mem_scale (m : Measure) {x : Double} (h : x.isFinite = true) {n : Int}
    {name : String} (hmem : (n, name) ∈ m.scale) (hmeant : m.meant x.toRat = n) :
    m.token x = m.start ++ name := by
  have hunnamed : ¬(m = radius ∧ x.same 4 = true) := by
    rintro ⟨rfl, hsame⟩
    have hradii : ∀ entry ∈ Scale.radii, entry.1 ≠ 4 := by decide
    have hvalue : (4 : ℚ) = n := ((same_four_iff h).mp hsame).symm.trans hmeant
    exact hradii _ hmem (by exact_mod_cast hvalue.symm)
  rw [token, if_neg hunnamed, m.suffix_of_mem_scale h hmem hmeant]

/-- A length has the class that names some pixels if and only if it is told to be these pixels. -/
theorem token_eq_word_iff (m : Measure) {x : Double} (h : x.isFinite = true) {word : String × Int}
    (hword : word ∈ m.words) : m.token x = word.1 ↔ m.meant x.toRat = word.2 := by
  constructor
  · intro htoken
    have hread := m.read?_token h
    rw [htoken, m.read?_words word hword] at hread
    exact (Option.some.inj hread).symm
  · intro hmeant
    have hscale : word ∈ m.scale.map (fun entry => (m.start ++ entry.2, entry.1)) →
        m.token x = word.1 := by
      intro hmem
      obtain ⟨entry, hentry, rfl⟩ := List.mem_map.mp hmem
      exact m.token_of_mem_scale h hentry hmeant
    by_cases hradius : m = radius
    · rw [words, if_pos hradius] at hword
      rcases List.mem_cons.mp hword with rfl | hmem
      · subst hradius
        exact if_pos ⟨rfl, (same_four_iff h).mpr hmeant⟩
      · exact hscale hmem
    · rw [words, if_neg hradius] at hword
      exact hscale hword

/-! ## The lengths of a layer -/

/-- The length, if the layer has it. Only icons and instances have a height. -/
def value? (l : Layer) : Measure → Option Double
  | width => l.box.map (·.width)
  | height =>
    if l.kind = .vector ∨ l.kind = .componentInstance then l.box.map (·.height) else none
  | gap => l.itemSpacing
  | radius => l.cornerRadius
  | fontSize => l.typeStyle.bind (·.fontSize)

def family : Measure → StyleFamily
  | width | height => .size
  | gap => .gap
  | radius => .radius
  | fontSize => .font

theorem of?_eq_family {m : Measure} {token : String} (h : m.owns token = true) :
    of? token = some m.family := by
  obtain ⟨hstem, hsize⟩ := Bool.and_eq_true_iff.mp h
  rw [beq_iff_eq] at hstem
  unfold of?
  rw [hstem]
  cases m with
  | width | height | gap | radius =>
    rw [if_neg (not_and_of_not_left _ (by decide))]
    decide
  | fontSize => rw [if_pos ⟨by decide, hsize⟩, family]

theorem filter_owns_classes (m : Measure) (l : Layer) :
    l.classes.tokens.filter m.owns = (m.family.classes l).tokens.filter m.owns := by
  rw [← filter_tokens_classes, List.filter_filter]
  refine List.filter_congr fun token _ => ?_
  cases howns : m.owns token with
  | false => rfl
  | true => rw [of?_eq_family howns, decide_eq_true rfl, Bool.and_true]

theorem filter_suffixed_start {m : Measure} (hm : m ≠ radius) (x? : Option Double) :
    (Layer.suffixed m.start (x?.map m.suffix)).filter m.owns = (x?.map m.token).toList := by
  cases x? with
  | none => rfl
  | some x =>
    change [m.start ++ m.suffix x].filter m.owns = [m.token x]
    rw [List.filter_cons_of_pos (m.owns_append x), token, if_neg (not_and_of_not_left _ hm)]
    rfl

theorem filter_suffixed_of_ne {m : Measure} {s : String} (hs : IsStem s)
    (hne : stem s ≠ stem m.start) (suffix? : Option String) :
    (Layer.suffixed s suffix?).filter m.owns = [] := by
  rw [List.filter_eq_nil_iff]
  intro token htoken howns
  obtain ⟨name, _, rfl⟩ := Layer.mem_suffixed htoken
  rw [owns, hs.stem_append, beq_false_of_ne hne, Bool.false_and] at howns
  cases howns

end Measure

namespace Layer

theorem empty_notMem_suffixed {s : String} (hs : IsStem s) {suffix? : Option String} :
    "" ∉ suffixed s suffix? := by
  intro hempty
  obtain ⟨t, _, heq⟩ := mem_suffixed hempty
  have hchars := congrArg String.toList heq
  rw [String.toList_append, hs, List.append_assoc] at hchars
  exact List.append_ne_nil_of_right_ne_nil _ (List.cons_ne_nil _ _) hchars

theorem tokens_ofList_suffixed {s t : String} (hs : IsStem s) (ht : IsStem t)
    (hne : stem s ≠ stem t) (a b : Option String) :
    (ClassList.ofList (suffixed s a ++ suffixed t b)).tokens = suffixed s a ++ suffixed t b := by
  have hnodup : (suffixed s a ++ suffixed t b).Nodup := by
    apply List.Nodup.of_map stem
    rw [List.map_append]
    refine ((sublist_map_stem_suffixed hs a).append (sublist_map_stem_suffixed ht b)).nodup ?_
    exact List.nodup_cons.mpr ⟨fun h => hne (List.mem_singleton.mp h), List.nodup_singleton _⟩
  refine ClassList.tokens_pushAll (c := .empty) hnodup ?_
  rw [List.mem_append, not_or]
  exact ⟨empty_notMem_suffixed hs, empty_notMem_suffixed ht⟩

theorem tokens_sizeClasses (l : Layer) :
    l.sizeClasses.tokens = suffixed "w-" ((nonzero (Measure.width.value? l)).map spacingSuffix) ++
      suffixed "h-" ((nonzero (Measure.height.value? l)).map spacingSuffix) := by
  rw [← tokens_ofList_suffixed (by decide) (by decide) (by decide), sizeClasses]
  by_cases hfixed : l.kind = .vector ∨ l.kind = .componentInstance
  · have hheight : l.hasFixedHeight = true := by
      rwa [hasFixedHeight, Bool.or_eq_true, beq_iff_eq, beq_iff_eq]
    rw [if_pos hheight, Measure.value?, Measure.value?, if_pos hfixed]
  · have hheight : ¬l.hasFixedHeight = true := by
      rwa [hasFixedHeight, Bool.or_eq_true, beq_iff_eq, beq_iff_eq]
    rw [if_neg hheight, Measure.value?, Measure.value?, if_neg hfixed]
    exact congrArg (fun tokens => (ClassList.ofList tokens).tokens) (List.append_nil _).symm

theorem tokens_gapClasses (l : Layer) :
    l.gapClasses.tokens = suffixed "gap-" ((nonzero (Measure.gap.value? l)).map spacingSuffix) := by
  have hsingle := tokens_ofList_suffixed (s := "gap-") (t := "h-") (by decide) (by decide)
    (by decide) ((nonzero l.itemSpacing).map spacingSuffix) none
  rwa [suffixed, suffixed, Option.map_none, Option.toList_none, List.append_nil] at hsingle

theorem tokens_fontClasses (l : Layer) :
    l.fontClasses.tokens =
      suffixed "text-" ((nonzero (Measure.fontSize.value? l)).map fontSizeSuffix) ++
        suffixed "font-" ((nonzero (l.typeStyle.bind (·.fontWeight))).bind fontWeightSuffix?) :=
  tokens_ofList_suffixed (by decide) (by decide) (by decide) _ _

theorem tokens_radiusClasses (l : Layer) :
    l.radiusClasses.tokens =
      ((nonzero (Measure.radius.value? l)).map Measure.radius.token).toList := by
  have htoken : radiusToken = Measure.radius.token := by
    funext x
    rw [radiusToken, Measure.token]
    simp only [true_and]
    rfl
  change (ClassList.ofList ((nonzero l.cornerRadius).map radiusToken).toList).tokens =
    ((nonzero l.cornerRadius).map Measure.radius.token).toList
  rw [htoken]
  cases nonzero l.cornerRadius with
  | none => rfl
  | some x =>
    have hne : "" ∉ [Measure.radius.token x] := by
      intro hempty
      have howns := Measure.radius.owns_token x
      rw [← List.mem_singleton.mp hempty] at howns
      exact absurd howns (by decide)
    exact ClassList.tokens_pushAll (c := .empty) (List.nodup_singleton _) hne

/-- The classes of a measure are one class of its length, or none. -/
theorem filter_owns_eq (m : Measure) (l : Layer) :
    l.classes.tokens.filter m.owns = ((nonzero (m.value? l)).map m.token).toList := by
  have hown : m ≠ .radius →
      (suffixed m.start ((nonzero (m.value? l)).map m.suffix)).filter m.owns =
        ((nonzero (m.value? l)).map m.token).toList :=
    fun hm => Measure.filter_suffixed_start hm _
  rw [Measure.filter_owns_classes]
  cases m with
  | width =>
    change l.sizeClasses.tokens.filter _ = _
    rw [tokens_sizeClasses, List.filter_append,
      Measure.filter_suffixed_of_ne (s := "h-") (by decide) (by decide), List.append_nil]
    exact hown (by decide)
  | height =>
    change l.sizeClasses.tokens.filter _ = _
    rw [tokens_sizeClasses, List.filter_append,
      Measure.filter_suffixed_of_ne (s := "w-") (by decide) (by decide), List.nil_append]
    exact hown (by decide)
  | gap =>
    change l.gapClasses.tokens.filter _ = _
    rw [tokens_gapClasses]
    exact hown (by decide)
  | fontSize =>
    change l.fontClasses.tokens.filter _ = _
    rw [tokens_fontClasses, List.filter_append, Measure.filter_suffixed_of_ne (s := "font-")
      (by decide) (by decide), List.append_nil]
    exact hown (by decide)
  | radius =>
    change l.radiusClasses.tokens.filter _ = _
    rw [tokens_radiusClasses, List.filter_eq_self]
    intro token htoken
    obtain ⟨x, _, rfl⟩ := Option.map_eq_some_iff.mp (Option.mem_toList.mp htoken)
    exact Measure.radius.owns_token x

end Layer

theorem nonzero_eq_filter {x? : Option Double} (h : ∀ x ∈ x?, x.isFinite = true) :
    nonzero x? = x?.filter fun x => decide (x.toRat ≠ 0) := by
  cases x? with
  | none => rfl
  | some x =>
    have hfinite := h x rfl
    have hsame : (!x.isZero && !x.isNaN) = decide (x.toRat ≠ 0) := by
      rw [isNaN_of_isFinite hfinite, Bool.not_false, Bool.and_true, Bool.eq_iff_iff,
        decide_eq_true_iff, Bool.not_eq_true', Ne, ← isZero_iff hfinite, Bool.not_eq_true]
    rw [nonzero, Option.filter_some, Option.filter_some, hsame]

/-- A layer has one class for a length that is set and not zero, and none for another one. The class
tells the length, to the nearest pixel for spacings and else exactly. It is a name of the scales
just when it tells the pixels of this name, and the classes of two lengths are the same just when
they tell the same. -/
theorem lengths_are_read_back (m : Measure) :
    (∀ l : Layer, (∀ x ∈ m.value? l, x.isFinite = true) →
      l.classes.tokens.filter m.owns =
        ((m.value? l).filter fun x => decide (x.toRat ≠ 0)).toList.map m.token) ∧
      (∀ x : Double, x.isFinite = true → m.read? (m.token x) = some (m.meant x.toRat)) ∧
      (∀ x : Double, x.isFinite = true → ∀ word ∈ m.words,
        (m.token x = word.1 ↔ m.meant x.toRat = word.2)) ∧
      ∀ x y : Double, x.isFinite = true → y.isFinite = true → x.toRat ≠ 0 →
        (m.token x = m.token y ↔ m.meant x.toRat = m.meant y.toRat) := by
  refine ⟨fun l hfinite => ?_, fun x hx => m.read?_token hx,
    fun x hx word hword => m.token_eq_word_iff hx hword,
    fun x y hx hy hne => m.token_eq_iff hx hy hne⟩
  rw [l.filter_owns_eq, nonzero_eq_filter hfinite]
  exact Option.toList_map

/-! ## An icon with odd lengths -/

def tenths (negative : Bool) (n : Nat) : Double := ofDecimal .double negative n (-1)

def oddIcon : Layer :=
  { id := "1:1", name := "icon", kind := .vector, visible := true
    box := some ⟨0, 0, tenths false 155, tenths true 155⟩
    layoutMode := none, paddingTop := none, paddingBottom := none, paddingLeft := none
    paddingRight := none, itemSpacing := none, mainAlignment := none, crossAlignment := none
    wrap := none, fills := [], strokes := [], effects := [], cornerRadius := some (tenths false 41)
    background := none, characters := none, typeStyle := none }

/-- Halves go away from zero, on both sides of it, and only a radius of four pixels has the class of
four. -/
theorem odd_lengths_are_read_back :
    ((∀ x ∈ Measure.height.value? oddIcon, x.isFinite = true) ∧
        oddIcon.classes.tokens.filter Measure.height.owns = ["h-[-16px]"]) ∧
      ((tenths false 41).isFinite = true ∧
        Measure.radius.read? (Measure.radius.token (tenths false 41)) =
          some (tenths false 41).toRat) ∧
      (("rounded", 4) ∈ Measure.radius.words ∧
        Measure.radius.token (tenths false 41) ≠ "rounded") ∧
      (tenths false 155).isFinite = true ∧ (tenths false 164).isFinite = true ∧
        (tenths false 155).toRat ≠ 0 ∧
        Measure.width.token (tenths false 155) = Measure.width.token (tenths false 164) := by
  obtain ⟨hheight, _⟩ := lengths_are_read_back .height
  obtain ⟨_, hread, hword, _⟩ := lengths_are_read_back .radius
  obtain ⟨_, _, _, hsame⟩ := lengths_are_read_back .width
  have hfinite : ∀ x ∈ Measure.height.value? oddIcon, x.isFinite = true := by decide +kernel
  have hradius : (tenths false 41).isFinite = true := by decide +kernel
  have hhalf : (tenths false 155).isFinite = true := by decide +kernel
  have hmore : (tenths false 164).isFinite = true := by decide +kernel
  have hne : (tenths false 155).toRat ≠ 0 := by decide +kernel
  have hnamed : ("rounded", 4) ∈ Measure.radius.words := by decide
  refine ⟨⟨hfinite, (hheight oddIcon hfinite).trans ?_⟩, ⟨hradius, hread _ hradius⟩,
    ⟨hnamed, ?_⟩, hhalf, hmore, hne, (hsame _ _ hhalf hmore hne).mpr ?_⟩
  · decide +kernel
  · rw [Ne, hword _ hradius _ hnamed]
    decide +kernel
  · decide +kernel

end DesignComponents
