import Mathlib.Data.List.Nodup
import DesignComponents.Proofs.Style.Families

/-!
# Paddings read back

A class of padding sets one side, two opposite sides or all four. Whatever sides of a layer are
set and whichever of their suffixes agree, its classes set every side that is set to its own
suffix, and set it once. They take one class for four equal sides, two for two pairs, and one for
each side else.
-/

namespace DesignComponents

inductive Side where
  | top | bottom | left | right
  deriving DecidableEq, Repr

namespace Side

def all : List Side := [top, bottom, left, right]

def stems : List (String × List Side) :=
  [("p", all), ("py", [top, bottom]), ("px", [left, right]), ("pt", [top]), ("pb", [bottom]),
    ("pl", [left]), ("pr", [right])]

/-- The sides that a class sets, which its stem tells. -/
def setBy (token : String) : List Side :=
  ((stems.find? fun entry => entry.1.toList == StyleFamily.stem token).map (·.2)).getD []

/-- What a class sets a side to. -/
def read? (side : Side) (token : String) : Option String :=
  if side ∈ setBy token then some (String.ofList (StyleFamily.suffix token)) else none

end Side

/-! ## Stems and suffixes -/

namespace StyleFamily

/-- A stem with the hyphen behind it. -/
def IsStem (s : String) : Prop := s.toList = stem s ++ ['-']

instance (s : String) : Decidable (IsStem s) := by
  unfold IsStem
  infer_instance

theorem IsStem.stem_append {s : String} (h : IsStem s) (t : String) : stem (s ++ t) = stem s := by
  refine StyleFamily.stem_append ?_ t
  rw [h]
  exact List.mem_append_right _ List.mem_cons_self

theorem IsStem.suffix_append {s : String} (h : IsStem s) (t : String) :
    String.ofList (suffix (s ++ t)) = t := by
  have hall : ∀ c ∈ stem s, decide (c ≠ '-') = true :=
    fun c hc => List.all_eq_true.mp List.all_takeWhile c hc
  rw [suffix, String.toList_append, h, List.append_assoc,
    List.dropWhile_append_of_pos hall]
  exact String.ofList_toList

end StyleFamily

open StyleFamily

namespace Side

theorem read?_append (side : Side) {s : String} (h : IsStem s) (t : String) :
    side.read? (s ++ t) = if side ∈ setBy s then some t else none := by
  rw [read?, setBy, setBy, h.stem_append, h.suffix_append]

theorem filterMap_suffixed (side : Side) {s : String} (h : IsStem s) (suffix : Option String) :
    (Layer.suffixed s suffix).filterMap side.read? =
      if side ∈ setBy s then suffix.toList else [] := by
  cases suffix with
  | none => exact (ite_self _).symm
  | some t =>
    change [s ++ t].filterMap side.read? = _
    rw [List.filterMap_cons, read?_append side h]
    by_cases hside : side ∈ setBy s
    · rw [if_pos hside, if_pos hside]
      rfl
    · rw [if_neg hside, if_neg hside]
      rfl

end Side

namespace Layer

def padding (l : Layer) : Side → Option Double
  | .top => l.paddingTop
  | .bottom => l.paddingBottom
  | .left => l.paddingLeft
  | .right => l.paddingRight

/-! ## The three forms of a padding -/

/-- One class for each side that is set. -/
def singleTokens (top bottom left right : Option String) : List String :=
  suffixed "pt-" top ++ suffixed "pb-" bottom ++ suffixed "pl-" left ++ suffixed "pr-" right

theorem paddingTokens_cases (top bottom left right : Option String) :
    (∃ s, top = some s ∧ bottom = some s ∧ left = some s ∧ right = some s ∧
      paddingTokens top bottom left right = ["p-" ++ s]) ∨
    (∃ v h, v ≠ h ∧ top = some v ∧ bottom = some v ∧ left = some h ∧ right = some h ∧
      paddingTokens top bottom left right = ["py-" ++ v, "px-" ++ h]) ∨
    (¬ (top.isSome ∧ left.isSome ∧ bottom = top ∧ right = left) ∧
      paddingTokens top bottom left right = singleTokens top bottom left right) := by
  unfold paddingTokens
  split
  · rename_i t b l r
    split
    · rename_i hequal
      obtain ⟨rfl, rfl, rfl⟩ := hequal
      exact .inl ⟨t, rfl, rfl, rfl, rfl, rfl⟩
    · rename_i hdiffer
      split
      · rename_i hpairs
        obtain ⟨rfl, rfl⟩ := hpairs
        exact .inr (.inl ⟨t, l, fun h => hdiffer ⟨rfl, h, h⟩, rfl, rfl, rfl, rfl, rfl⟩)
      · rename_i hpairs
        refine .inr (.inr ⟨?_, rfl⟩)
        rintro ⟨_, _, hb, hr⟩
        exact hpairs ⟨(Option.some.inj hb).symm, (Option.some.inj hr).symm⟩
  · rename_i hunset
    refine .inr (.inr ⟨?_, rfl⟩)
    rintro ⟨htop, hleft, rfl, rfl⟩
    obtain ⟨t, rfl⟩ := Option.isSome_iff_exists.mp htop
    obtain ⟨l, rfl⟩ := Option.isSome_iff_exists.mp hleft
    exact hunset t t l l rfl rfl rfl rfl

section Given

variable (given : Side → Option String)

def tokensFor : List String :=
  paddingTokens (given .top) (given .bottom) (given .left) (given .right)

/-- Each side is set to what is given for it, once, and to nothing else. -/
theorem filterMap_tokensFor (side : Side) :
    (tokensFor given).filterMap side.read? = (given side).toList := by
  rcases paddingTokens_cases (given .top) (given .bottom) (given .left) (given .right) with
    ⟨s, ht, hb, hl, hr, htokens⟩ | ⟨v, h, _, ht, hb, hl, hr, htokens⟩ | ⟨_, htokens⟩
  · have hread : side.read? ("p-" ++ s) = some s := by
      rw [side.read?_append (by decide)]
      cases side <;> exact if_pos (by decide)
    have hgiven : given side = some s := by
      cases side <;> assumption
    rw [tokensFor, htokens, List.filterMap_cons, hread, hgiven]
    rfl
  · rw [tokensFor, htokens, List.filterMap_cons, List.filterMap_cons,
      side.read?_append (by decide), side.read?_append (by decide)]
    cases side with
    | top => rw [ht]; rfl
    | bottom => rw [hb]; rfl
    | left => rw [hl]; rfl
    | right => rw [hr]; rfl
  · rw [tokensFor, htokens, singleTokens, List.filterMap_append, List.filterMap_append,
      List.filterMap_append, side.filterMap_suffixed (by decide),
      side.filterMap_suffixed (by decide), side.filterMap_suffixed (by decide),
      side.filterMap_suffixed (by decide)]
    cases side <;> simp [show Side.setBy "pt-" = [.top] by decide,
      show Side.setBy "pb-" = [.bottom] by decide, show Side.setBy "pl-" = [.left] by decide,
      show Side.setBy "pr-" = [.right] by decide]

theorem sublist_map_stem_suffixed {s : String} (h : IsStem s) (suffix : Option String) :
    ((suffixed s suffix).map stem).Sublist [stem s] := by
  cases suffix with
  | none => exact List.nil_sublist _
  | some t =>
    change [stem (s ++ t)].Sublist _
    rw [h.stem_append]

/-- No class comes twice, for in each form all stems are different. -/
theorem nodup_tokensFor : (tokensFor given).Nodup := by
  apply List.Nodup.of_map stem
  rcases paddingTokens_cases (given .top) (given .bottom) (given .left) (given .right) with
    ⟨s, _, _, _, _, htokens⟩ | ⟨v, h, _, _, _, _, _, htokens⟩ | ⟨_, htokens⟩
  · rw [tokensFor, htokens]
    exact List.nodup_singleton _
  · rw [tokensFor, htokens, List.map_cons, List.map_cons, IsStem.stem_append (by decide),
      IsStem.stem_append (by decide)]
    decide
  · rw [tokensFor, htokens, singleTokens, List.map_append, List.map_append, List.map_append]
    have hsublist := (((sublist_map_stem_suffixed (s := "pt-") (by decide) (given .top)).append
      (sublist_map_stem_suffixed (s := "pb-") (by decide) (given .bottom))).append
      (sublist_map_stem_suffixed (s := "pl-") (by decide) (given .left))).append
      (sublist_map_stem_suffixed (s := "pr-") (by decide) (given .right))
    exact hsublist.nodup (by decide)

theorem empty_notMem_tokensFor : "" ∉ tokensFor given := by
  intro hempty
  obtain ⟨s, hs, _, _, t, _, heq⟩ := mem_paddingTokens hempty
  have hhyphen : ∀ s ∈ paddingStems, '-' ∈ s.toList := by decide
  have hmem : '-' ∈ (s ++ t).toList := by
    rw [String.toList_append]
    exact List.mem_append_left _ (hhyphen s hs)
  rw [heq] at hmem
  exact absurd hmem (by decide)

theorem tokens_paddingClasses (l : Layer) :
    l.paddingClasses.tokens = tokensFor fun side => (l.padding side).map spacingSuffix :=
  ClassList.tokens_pushAll (c := .empty)
    (nodup_tokensFor fun side => (l.padding side).map spacingSuffix)
    (empty_notMem_tokensFor fun side => (l.padding side).map spacingSuffix)

theorem length_suffixed (s : String) (suffix : Option String) :
    (suffixed s suffix).length = if suffix.isSome then 1 else 0 := by
  cases suffix <;> rfl

theorem length_tokensFor :
    (tokensFor given).length =
      if (given .top).isSome ∧ given .bottom = given .top ∧ given .left = given .top ∧
        given .right = given .top then 1
      else if (given .top).isSome ∧ (given .left).isSome ∧ given .bottom = given .top ∧
        given .right = given .left then 2
      else (Side.all.filter fun side => (given side).isSome).length := by
  rcases paddingTokens_cases (given .top) (given .bottom) (given .left) (given .right) with
    ⟨s, ht, hb, hl, hr, htokens⟩ | ⟨v, h, hne, ht, hb, hl, hr, htokens⟩ | ⟨hform, htokens⟩
  · rw [tokensFor, htokens, ht, hb, hl, hr, if_pos ⟨rfl, rfl, rfl, rfl⟩]
    rfl
  · rw [tokensFor, htokens, ht, hb, hl, hr, if_neg, if_pos ⟨rfl, rfl, rfl, rfl⟩]
    · rfl
    · rintro ⟨_, _, heq, _⟩
      exact hne (Option.some.inj heq).symm
  · have hequal : ¬((given .top).isSome = true ∧ given .bottom = given .top ∧
        given .left = given .top ∧ given .right = given .top) := by
      rintro ⟨htop, hbottom, hleft, hright⟩
      exact hform ⟨htop, hleft ▸ htop, hbottom, hright.trans hleft.symm⟩
    rw [if_neg hequal, if_neg hform, tokensFor, htokens, singleTokens, List.length_append,
      List.length_append, List.length_append, length_suffixed, length_suffixed, length_suffixed,
      length_suffixed, ← List.countP_eq_length_filter]
    simp only [Side.all, List.countP_cons, List.countP_nil]
    omega

end Given

/-- The classes of a padding set every side that is set to the suffix of its value, once, and no
other side. There is one class if all sides have one suffix, two if opposite sides have, and else
as many as sides are set. -/
theorem padding_is_read_back (l : Layer) :
    let given := fun side => (l.padding side).map spacingSuffix
    (∀ side, l.paddingClasses.tokens.filterMap side.read? = (given side).toList) ∧
      l.paddingClasses.tokens.length =
        if (given .top).isSome ∧ given .bottom = given .top ∧ given .left = given .top ∧
          given .right = given .top then 1
        else if (given .top).isSome ∧ (given .left).isSome ∧ given .bottom = given .top ∧
          given .right = given .left then 2
        else (Side.all.filter fun side => (l.padding side).isSome).length := by
  intro given
  have hset : (fun side => (l.padding side).isSome) = fun side => (given side).isSome := by
    funext side
    exact (Option.isSome_map).symm
  rw [hset, tokens_paddingClasses]
  exact ⟨filterMap_tokensFor given, length_tokensFor given⟩

end Layer

end DesignComponents
