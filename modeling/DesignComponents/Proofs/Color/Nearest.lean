import DesignComponents.Proofs.Color.TableIndex
import DesignComponents.Proofs.Number.SquareRoots

/-!
# The nearest entry

A color is resolved to the first of the entries that are nearest to it. The look-up by its
hexadecimal name is only a short way to the same entry, and a scan that compares rounded roots
finds no other one than the comparison of the exact squares.
-/

namespace DesignComponents

namespace Rgba

theorem squaredGap_le (x y : UInt8) : squaredGap x y ≤ 255 * 255 := by
  have hx : x.toNat < 256 := x.toNat_lt
  have hy : y.toNat < 256 := y.toNat_lt
  apply Nat.mul_le_mul
  · omega
  · omega

theorem squaredGap_eq_zero_iff {x y : UInt8} : squaredGap x y = 0 ↔ x = y := by
  constructor
  · intro h
    have hgap : x.toNat - y.toNat + (y.toNat - x.toNat) = 0 := mul_self_eq_zero.mp h
    apply UInt8.toNat_inj.mp
    omega
  · rintro rfl
    simp [squaredGap]

theorem squaredDistance_le (c d : Rgba) : c.squaredDistance d ≤ farthest := by
  have hred := squaredGap_le c.red d.red
  have hgreen := squaredGap_le c.green d.green
  have hblue := squaredGap_le c.blue d.blue
  have halpha := squaredGap_le c.alpha d.alpha
  unfold squaredDistance farthest
  omega

theorem squaredDistance_eq_zero_iff {c d : Rgba} : c.squaredDistance d = 0 ↔ c = d := by
  constructor
  · intro h
    unfold squaredDistance at h
    have hred : squaredGap c.red d.red = 0 := by omega
    have hgreen : squaredGap c.green d.green = 0 := by omega
    have hblue : squaredGap c.blue d.blue = 0 := by omega
    have halpha : squaredGap c.alpha d.alpha = 0 := by omega
    cases c
    cases d
    rw [Rgba.mk.injEq]
    exact ⟨squaredGap_eq_zero_iff.mp hred, squaredGap_eq_zero_iff.mp hgreen,
      squaredGap_eq_zero_iff.mp hblue, squaredGap_eq_zero_iff.mp halpha⟩
  · rintro rfl
    simp [squaredDistance, squaredGap]

/-- Distances compare like their exact squares, although they are rounded. -/
theorem lt_distance_iff {c d e : Rgba} :
    (c.distance d).lt (c.distance e) = true ↔ c.squaredDistance d < c.squaredDistance e := by
  rw [distance, distance, Binary.lt,
    Binary.compare?_sqrtOfNat (squaredDistance_le c d) (squaredDistance_le c e), beq_iff_eq,
    Option.some.injEq]
  exact Nat.compare_eq_lt

end Rgba

namespace ColorTable

/-- The entry is as near to the color as any other one, and nearer than those before it. -/
def FirstNearest (c : Rgba) (tokens : List ColorToken) (t : ColorToken) : Prop :=
  (∀ u ∈ tokens, c.squaredDistance t.rgba ≤ c.squaredDistance u.rgba) ∧
    ∃ before after, tokens = before ++ t :: after ∧
      ∀ u ∈ before, c.squaredDistance t.rgba < c.squaredDistance u.rgba

/-- There is one such entry at most. -/
theorem FirstNearest.unique {c : Rgba} {tokens : List ColorToken} {t u : ColorToken}
    (ht : FirstNearest c tokens t) (hu : FirstNearest c tokens u) : t = u := by
  obtain ⟨hleast, before, after, rfl, hbefore⟩ := ht
  obtain ⟨hleast', before', after', hsplit, hbefore'⟩ := hu
  have hle := hleast u (by rw [hsplit]; simp)
  have hle' := hleast' t (by simp)
  rcases List.append_eq_append_iff.mp hsplit with ⟨between, rfl, hrest⟩ | ⟨between, rfl, hrest⟩
  · cases between with
    | nil => exact (List.cons.inj hrest).1
    | cons v between =>
      obtain rfl : t = v := (List.cons.inj hrest).1
      have hlt := hbefore' t (by simp)
      omega
  · cases between with
    | nil => exact (List.cons.inj hrest).1.symm
    | cons v between =>
      obtain rfl : u = v := (List.cons.inj hrest).1
      have hlt := hbefore u (by simp)
      omega

theorem nearestOf_eq_none_iff {c : Rgba} {tokens : List ColorToken} :
    nearestOf c tokens = none ↔ tokens = [] := by
  cases tokens with
  | nil => simp [nearestOf]
  | cons t tokens =>
    rw [nearestOf]
    split
    · simp
    · split <;> simp

theorem firstNearest_nearestOf {c : Rgba} {tokens : List ColorToken} {t : ColorToken}
    (h : nearestOf c tokens = some t) : FirstNearest c tokens t := by
  induction tokens generalizing t with
  | nil => cases h
  | cons u tokens ih =>
    rw [nearestOf] at h
    split at h
    · rename_i hnone
      obtain rfl := nearestOf_eq_none_iff.mp hnone
      obtain rfl : u = t := Option.some.inj h
      exact ⟨by simp, [], [], rfl, by simp⟩
    · rename_i v hv
      obtain ⟨hleast, before, after, hsplit, hbefore⟩ := ih hv
      split at h
      · rename_i hnearer
        obtain rfl : v = t := Option.some.inj h
        refine ⟨?_, u :: before, after, by rw [hsplit]; rfl, ?_⟩
        · intro w hw
          rcases List.mem_cons.mp hw with rfl | hw
          · exact Nat.le_of_lt hnearer
          · exact hleast w hw
        · intro w hw
          rcases List.mem_cons.mp hw with rfl | hw
          · exact hnearer
          · exact hbefore w hw
      · rename_i hfarther
        obtain rfl : u = t := Option.some.inj h
        refine ⟨?_, [], tokens, rfl, by simp⟩
        intro w hw
        rcases List.mem_cons.mp hw with rfl | hw
        · exact Nat.le_refl _
        · have hle := hleast w hw
          omega

theorem nearestOf_eq_some_iff {c : Rgba} {tokens : List ColorToken} {t : ColorToken} :
    nearestOf c tokens = some t ↔ FirstNearest c tokens t := by
  constructor
  · exact firstNearest_nearestOf
  · intro h
    cases hfound : nearestOf c tokens with
    | none =>
      obtain ⟨_, before, after, hsplit, _⟩ := h
      rw [nearestOf_eq_none_iff.mp hfound] at hsplit
      simp at hsplit
    | some u => rw [h.unique (firstNearest_nearestOf hfound)]

example : nearestOf ⟨0, 0, 0, 255⟩ [⟨⟨9, 0, 0, 255⟩, "far"⟩, ⟨⟨3, 0, 0, 255⟩, "first"⟩,
    ⟨⟨0, 3, 0, 255⟩, "second"⟩] = some ⟨⟨3, 0, 0, 255⟩, "first"⟩ := by decide

/-! ## The scan of rounded distances -/

/-- Goes through the tokens from the first one with the closest so far and its distance. -/
def scan (c : Rgba) (closest : Option ColorToken) (least : Double) :
    List ColorToken → Option ColorToken
  | [] => closest
  | t :: tokens =>
    if (c.distance t.rgba).lt least then scan c (some t) (c.distance t.rgba) tokens
    else scan c closest least tokens

theorem nearestOf_cons_of_nearer {c : Rgba} {t u : ColorToken} {tokens : List ColorToken}
    (h : c.squaredDistance u.rgba < c.squaredDistance t.rgba) :
    nearestOf c (t :: u :: tokens) = nearestOf c (u :: tokens) := by
  cases hfound : nearestOf c (u :: tokens) with
  | none => cases nearestOf_eq_none_iff.mp hfound
  | some v =>
    have hle := (firstNearest_nearestOf hfound).1 u List.mem_cons_self
    have hlt : c.squaredDistance v.rgba < c.squaredDistance t.rgba := by omega
    rw [nearestOf, hfound]
    exact if_pos hlt

theorem nearestOf_cons_of_farther {c : Rgba} {t u : ColorToken} {tokens : List ColorToken}
    (h : ¬ c.squaredDistance u.rgba < c.squaredDistance t.rgba) :
    nearestOf c (t :: u :: tokens) = nearestOf c (t :: tokens) := by
  rw [nearestOf, nearestOf, nearestOf]
  cases nearestOf c tokens with
  | none => exact if_neg h
  | some v =>
    dsimp only
    by_cases hnext : c.squaredDistance v.rgba < c.squaredDistance u.rgba
    · rw [if_pos hnext]
    · have hlast : ¬ c.squaredDistance v.rgba < c.squaredDistance t.rgba := by omega
      rw [if_neg hnext, if_neg hlast]
      exact if_neg h

/-- Along the scan the closest token so far stands for all tokens before. -/
theorem scan_some (c : Rgba) (t : ColorToken) (tokens : List ColorToken) :
    scan c (some t) (c.distance t.rgba) tokens = nearestOf c (t :: tokens) := by
  induction tokens generalizing t with
  | nil => rfl
  | cons u tokens ih =>
    rw [scan]
    split
    · rename_i hnearer
      rw [ih u, nearestOf_cons_of_nearer (Rgba.lt_distance_iff.mp hnearer)]
    · rename_i hfarther
      rw [ih t, nearestOf_cons_of_farther (fun hlt => hfarther (Rgba.lt_distance_iff.mpr hlt))]

/-- The scan starts at an infinite distance and finds the first of the nearest entries. -/
theorem scan_eq_nearestOf (c : Rgba) (tokens : List ColorToken) :
    scan c none (.infinite false) tokens = nearestOf c tokens := by
  cases tokens with
  | nil => rfl
  | cons t tokens =>
    have hfirst : (c.distance t.rgba).lt (.infinite false) = true :=
      Binary.sqrtOfNat_lt_infinite (Rgba.squaredDistance_le c t.rgba)
    rw [scan, if_pos hfirst]
    exact scan_some c t tokens

/-! ## Exact hits -/

/-- The entry with the color itself is the nearest one. -/
theorem Indexed.firstNearest {table : ColorTable} (h : table.Indexed) {c : Rgba} {name : String}
    (hmem : (⟨c, name⟩ : ColorToken) ∈ table.tokens) :
    FirstNearest c table.tokens ⟨c, name⟩ := by
  have hzero : c.squaredDistance c = 0 := Rgba.squaredDistance_eq_zero_iff.mpr rfl
  obtain ⟨before, after, hsplit⟩ := List.append_of_mem hmem
  refine ⟨fun u _ => ?_, before, after, hsplit, fun u hu => ?_⟩
  · rw [hzero]
    exact Nat.zero_le _
  · -- A second entry with this color would be one too many.
    rw [hzero]
    apply Nat.pos_of_ne_zero
    intro heq
    have hcolor : c = u.rgba := Rgba.squaredDistance_eq_zero_iff.mp heq
    have hnodup := h.nodup
    rw [colors, hsplit, List.map_append, List.map_cons] at hnodup
    have hapart := (List.nodup_append.mp hnodup).2.2
    exact hapart u.rgba (List.mem_map_of_mem hu) c List.mem_cons_self hcolor.symm

theorem Indexed.exact_eq_nearest {table : ColorTable} (h : table.Indexed) {c : Rgba}
    {name : String} (hfound : table.find? c.hex = some name) : table.nearest? c = some name := by
  have hmem := h.find?_eq_some_iff.mp hfound
  rw [nearest?, nearestOf_eq_some_iff.mpr (h.firstNearest hmem)]
  rfl

theorem filter_eq_singleton {α β : Type} [DecidableEq β] {f : α → β} {xs : List α} {a : α}
    (hnodup : (xs.map f).Nodup) (hmem : a ∈ xs) : xs.filter (fun x => f x = f a) = [a] := by
  induction xs with
  | nil => cases hmem
  | cons x xs ih =>
    rw [List.map_cons, List.nodup_cons] at hnodup
    obtain ⟨hnew, hnodup⟩ := hnodup
    rcases List.mem_cons.mp hmem with rfl | hmem
    · rw [List.filter_cons_of_pos (by simp), List.filter_eq_nil_iff.mpr]
      intro y hy heq
      apply hnew
      rw [← of_decide_eq_true heq]
      exact List.mem_map_of_mem hy
    · have hne : f x ≠ f a := by
        intro heq
        apply hnew
        rw [heq]
        exact List.mem_map_of_mem hmem
      rw [List.filter_cons_of_neg (by simpa using hne)]
      exact ih hnodup hmem

/-- The index finds the one entry at distance zero. -/
theorem Indexed.find?_eq_some_iff_filter {table : ColorTable} (h : table.Indexed) {c : Rgba}
    {name : String} :
    table.find? c.hex = some name ↔
      table.tokens.filter (fun t => c.squaredDistance t.rgba = 0) = [⟨c, name⟩] := by
  have hsame : table.tokens.filter (fun t => c.squaredDistance t.rgba = 0) =
      table.tokens.filter (fun t => t.rgba = c) := by
    apply List.filter_congr
    intro t _
    rw [decide_eq_decide, Rgba.squaredDistance_eq_zero_iff, eq_comm]
  rw [hsame, h.find?_eq_some_iff]
  constructor
  · exact filter_eq_singleton h.nodup
  · intro hfilter
    have hmem : (⟨c, name⟩ : ColorToken) ∈ table.tokens.filter (fun t => t.rgba = c) := by
      rw [hfilter]
      exact List.mem_singleton_self _
    exact (List.mem_filter.mp hmem).1

/-- A table built from any tokens resolves a color to the name of its nearest entry, the first of
several, whether the index knows the color or the scan of rounded distances finds it. The index
knows a color just when one entry is at distance zero, and only an empty table has no answer. -/
theorem resolves_to_first_nearest (tokens : List ColorToken) (c : Rgba) :
    (ofTokens tokens).resolve? c = (ofTokens tokens).nearest? c ∧
      (ofTokens tokens).nearest? c =
        (scan c none (.infinite false) (ofTokens tokens).tokens).map (·.name) ∧
      (∀ name, (ofTokens tokens).resolve? c = some name ↔
        ∃ t, FirstNearest c (ofTokens tokens).tokens t ∧ t.name = name) ∧
      (∀ name, (ofTokens tokens).find? c.hex = some name ↔
        (ofTokens tokens).tokens.filter (fun t => c.squaredDistance t.rgba = 0) = [⟨c, name⟩]) ∧
      ((ofTokens tokens).resolve? c = none ↔ tokens = []) := by
  have hindexed := indexed_ofTokens tokens
  have hresolve : (ofTokens tokens).resolve? c = (ofTokens tokens).nearest? c := by
    rw [resolve?]
    cases hfound : (ofTokens tokens).find? c.hex with
    | none => rfl
    | some name => exact (hindexed.exact_eq_nearest hfound).symm
  refine ⟨hresolve, ?_, ?_, ?_, ?_⟩
  · rw [scan_eq_nearestOf]
    rfl
  · intro name
    rw [hresolve, nearest?, Option.map_eq_some_iff]
    simp only [nearestOf_eq_some_iff]
  · intro name
    exact hindexed.find?_eq_some_iff_filter
  · rw [hresolve, nearest?, Option.map_eq_none_iff, nearestOf_eq_none_iff]
    exact tokens_ofTokens_eq_nil

end ColorTable

end DesignComponents
