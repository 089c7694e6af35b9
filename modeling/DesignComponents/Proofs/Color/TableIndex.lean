import DesignComponents.Color.Table
import DesignComponents.Proofs.Text.Hexadecimal

/-!
# The index of a table

The index of a color table and its list of entries say the same: a hexadecimal name leads to the
place of the entry that has it. As different colors have different names, a table holds every
color once, whatever tokens it was built from.
-/

namespace DesignComponents

/-! ## Hexadecimal names -/

/-- Colors with the same hexadecimal name are the same. -/
theorem Rgba.hex_inj {c d : Rgba} (h : c.hex = d.hex) : c = d := by
  have hchars := (List.cons.inj (String.ofList_injective h)).2
  obtain ⟨hfirst, halpha⟩ := List.append_inj' hchars rfl
  obtain ⟨hfirst, hblue⟩ := List.append_inj' hfirst rfl
  obtain ⟨hred, hgreen⟩ := List.append_inj' hfirst rfl
  cases c
  cases d
  rw [Rgba.mk.injEq]
  exact ⟨hexPair_inj hred, hexPair_inj hgreen, hexPair_inj hblue, hexPair_inj halpha⟩

namespace ColorTable

/-! ## The index and the entries -/

theorem getElem?_rename (name : String) (position : Nat) (tokens : List ColorToken) (i : Nat) :
    (rename name position tokens)[i]? =
      tokens[i]?.map fun t => if i = position then { t with name } else t := by
  induction tokens generalizing position i with
  | nil => cases position <;> rfl
  | cons u tokens ih =>
    cases position with
    | zero =>
      cases i with
      | zero => rfl
      | succ i =>
        rw [rename, List.getElem?_cons_succ, List.getElem?_cons_succ]
        simp
    | succ position =>
      cases i with
      | zero => rfl
      | succ i =>
        rw [rename, List.getElem?_cons_succ, List.getElem?_cons_succ, ih]
        simp

/-- A new name for an entry leaves its color. -/
theorem rgba_rename (name : String) (position : Nat) (tokens : List ColorToken) :
    (rename name position tokens).map (·.rgba) = tokens.map (·.rgba) := by
  refine List.ext_getElem? fun i => ?_
  rw [List.getElem?_map, List.getElem?_map, getElem?_rename, Option.map_map]
  refine congrFun (congrArg Option.map (funext fun t => ?_)) _
  dsimp only [Function.comp]
  split <;> rfl

/-- The colors of the entries in their order. -/
def colors (table : ColorTable) : List Rgba := table.tokens.map (·.rgba)

theorem getElem?_colors (table : ColorTable) (i : Nat) :
    table.colors[i]? = table.tokens[i]?.map (·.rgba) :=
  List.getElem?_map

theorem getElem?_concat_eq_some {α : Type} {xs : List α} {x y : α} {i : Nat} :
    (xs ++ [x])[i]? = some y ↔ xs[i]? = some y ∨ (i = xs.length ∧ y = x) := by
  rcases Nat.lt_trichotomy i xs.length with hlt | rfl | hgt
  · rw [List.getElem?_append_left hlt]
    constructor
    · exact .inl
    · rintro (hy | ⟨hi, _⟩)
      · exact hy
      · omega
  · rw [List.getElem?_concat_length, List.getElem?_eq_none (Nat.le_refl _)]
    simp [eq_comm]
  · rw [List.getElem?_eq_none (by simp; omega), List.getElem?_eq_none (by omega)]
    simp
    omega

/-- The index leads from the name of each color to its place, and from no other text to any
place. -/
def Indexed (table : ColorTable) : Prop :=
  ∀ (hex : String) (i : Nat),
    table.index[hex]? = some i ↔ ∃ c, table.colors[i]? = some c ∧ c.hex = hex

theorem Indexed.place_eq {table : ColorTable} (h : table.Indexed) {c : Rgba} {i j : Nat}
    (hi : table.colors[i]? = some c) (hj : table.colors[j]? = some c) : i = j := by
  have hfirst := (h c.hex i).mpr ⟨c, hi, rfl⟩
  have hsecond := (h c.hex j).mpr ⟨c, hj, rfl⟩
  exact Option.some.inj (hfirst.symm.trans hsecond)

theorem Indexed.not_mem {table : ColorTable} (h : table.Indexed) {c : Rgba}
    (hnone : table.index[c.hex]? = none) : c ∉ table.colors := by
  intro hmem
  obtain ⟨i, hi⟩ := List.mem_iff_getElem?.mp hmem
  have hsome := (h c.hex i).mpr ⟨c, hi, rfl⟩
  rw [hnone] at hsome
  cases hsome

theorem Indexed.mem {table : ColorTable} (h : table.Indexed) {c : Rgba} {i : Nat}
    (hsome : table.index[c.hex]? = some i) : c ∈ table.colors := by
  obtain ⟨d, hd, hhex⟩ := (h c.hex i).mp hsome
  rw [← Rgba.hex_inj hhex]
  exact List.mem_of_getElem? hd

/-- A token of a color that is there leaves the colors, and any other one adds its color at the
end. -/
theorem Indexed.insert_cases {table : ColorTable} (h : table.Indexed) (token : ColorToken) :
    (token.rgba ∈ table.colors ∧ (table.insert token).colors = table.colors ∧
        (table.insert token).index = table.index) ∨
      (token.rgba ∉ table.colors ∧ (table.insert token).colors = table.colors ++ [token.rgba] ∧
        (table.insert token).index = table.index.insert token.rgba.hex table.tokens.length) := by
  unfold insert
  dsimp only
  split
  · rename_i position hposition
    exact .inl ⟨h.mem hposition, rgba_rename .., rfl⟩
  · rename_i hnone
    exact .inr ⟨h.not_mem hnone, List.map_append .., rfl⟩

theorem indexed_empty : empty.Indexed := by
  intro hex i
  constructor
  · intro hi
    rw [empty, Std.HashMap.getElem?_empty] at hi
    cases hi
  · rintro ⟨c, hc, _⟩
    cases hc

theorem Indexed.insert {table : ColorTable} (h : table.Indexed) (token : ColorToken) :
    (table.insert token).Indexed := by
  have hlength : table.colors.length = table.tokens.length := List.length_map ..
  rcases h.insert_cases token with ⟨_, hcolors, hindex⟩ | ⟨hnew, hcolors, hindex⟩
  · intro hex i
    rw [hcolors, hindex]
    exact h hex i
  · intro hex i
    rw [hcolors, hindex, Std.HashMap.getElem?_insert, ← hlength]
    by_cases hhex : token.rgba.hex = hex
    · -- Only the new entry has this name.
      rw [if_pos (beq_iff_eq.mpr hhex)]
      constructor
      · intro hi
        have hplace : i = table.colors.length := (Option.some.inj hi).symm
        exact ⟨token.rgba, getElem?_concat_eq_some.mpr (.inr ⟨hplace, rfl⟩), hhex⟩
      · rintro ⟨c, hc, hname⟩
        obtain rfl : c = token.rgba := Rgba.hex_inj (hname.trans hhex.symm)
        rcases getElem?_concat_eq_some.mp hc with hold | ⟨rfl, _⟩
        · exact absurd (List.mem_of_getElem? hold) hnew
        · rfl
    · rw [if_neg (fun heq => hhex (beq_iff_eq.mp heq)), h hex i]
      constructor
      · rintro ⟨c, hc, hname⟩
        exact ⟨c, getElem?_concat_eq_some.mpr (.inl hc), hname⟩
      · rintro ⟨c, hc, hname⟩
        rcases getElem?_concat_eq_some.mp hc with hold | ⟨_, rfl⟩
        · exact ⟨c, hold, hname⟩
        · exact absurd hname hhex

theorem Indexed.foldl {table : ColorTable} (h : table.Indexed) (tokens : List ColorToken) :
    (tokens.foldl ColorTable.insert table).Indexed := by
  induction tokens generalizing table with
  | nil => exact h
  | cons token tokens ih => exact ih (h.insert token)

theorem indexed_ofTokens (tokens : List ColorToken) : (ofTokens tokens).Indexed :=
  indexed_empty.foldl tokens

/-- No color stands in the table twice. -/
theorem Indexed.nodup {table : ColorTable} (h : table.Indexed) : table.colors.Nodup := by
  refine List.pairwise_iff_getElem.mpr fun i j hi hj hij heq => ?_
  have hfirst : table.colors[i]? = some table.colors[j] := by
    rw [← heq]
    exact List.getElem?_eq_getElem hi
  have hplace := h.place_eq hfirst (List.getElem?_eq_getElem hj)
  omega

/-! ## The colors of a table -/

theorem mem_colors_insert {table : ColorTable} (h : table.Indexed) {token : ColorToken}
    {c : Rgba} : c ∈ (table.insert token).colors ↔ c ∈ table.colors ∨ c = token.rgba := by
  rcases h.insert_cases token with ⟨hold, hcolors, _⟩ | ⟨_, hcolors, _⟩
  · rw [hcolors]
    constructor
    · exact .inl
    · rintro (hc | rfl)
      · exact hc
      · exact hold
  · rw [hcolors, List.mem_append, List.mem_singleton]

theorem mem_colors_foldl {table : ColorTable} (h : table.Indexed) {tokens : List ColorToken}
    {c : Rgba} :
    c ∈ (tokens.foldl insert table).colors ↔ c ∈ table.colors ∨ ∃ t ∈ tokens, t.rgba = c := by
  induction tokens generalizing table with
  | nil => simp
  | cons token tokens ih =>
    rw [List.foldl_cons, ih (h.insert token), mem_colors_insert h, or_assoc]
    simp [eq_comm]

/-- The colors of a table are those of the tokens it was built from. -/
theorem mem_colors_ofTokens {tokens : List ColorToken} {c : Rgba} :
    c ∈ (ofTokens tokens).colors ↔ ∃ t ∈ tokens, t.rgba = c := by
  rw [ofTokens, mem_colors_foldl indexed_empty]
  constructor
  · rintro (hc | hc)
    · cases hc
    · exact hc
  · exact .inr

theorem tokens_ofTokens_eq_nil {tokens : List ColorToken} :
    (ofTokens tokens).tokens = [] ↔ tokens = [] := by
  constructor
  · intro hnil
    refine List.eq_nil_iff_forall_not_mem.mpr fun t ht => ?_
    have hmem : t.rgba ∈ (ofTokens tokens).colors := mem_colors_ofTokens.mpr ⟨t, ht, rfl⟩
    rw [colors, hnil] at hmem
    cases hmem
  · rintro rfl
    rfl

/-! ## Looking a color up -/

theorem Indexed.index_eq_some_iff {table : ColorTable} (h : table.Indexed) {hex : String}
    {i : Nat} :
    table.index[hex]? = some i ↔ ∃ t, table.tokens[i]? = some t ∧ t.rgba.hex = hex := by
  rw [h hex i]
  simp only [getElem?_colors, Option.map_eq_some_iff]
  constructor
  · rintro ⟨_, ⟨t, ht, rfl⟩, hhex⟩
    exact ⟨t, ht, hhex⟩
  · rintro ⟨t, ht, hhex⟩
    exact ⟨t.rgba, ⟨t, ht, rfl⟩, hhex⟩

/-- The index has an answer for the hexadecimal names of the entries only. -/
theorem Indexed.find?_eq_some_iff_mem {table : ColorTable} (h : table.Indexed)
    {hex name : String} :
    table.find? hex = some name ↔ ∃ t ∈ table.tokens, t.rgba.hex = hex ∧ t.name = name := by
  simp only [find?, Option.bind_eq_some_iff, Option.map_eq_some_iff, h.index_eq_some_iff]
  constructor
  · rintro ⟨i, ⟨t, ht, hhex⟩, u, hu, hname⟩
    obtain rfl : t = u := Option.some.inj (ht.symm.trans hu)
    exact ⟨t, List.mem_of_getElem? ht, hhex, hname⟩
  · rintro ⟨t, ht, hhex, hname⟩
    obtain ⟨i, hi⟩ := List.mem_iff_getElem?.mp ht
    exact ⟨i, ⟨t, hi, hhex⟩, t, hi, hname⟩

/-- The index answers with the entry of the color. -/
theorem Indexed.find?_eq_some_iff {table : ColorTable} (h : table.Indexed) {c : Rgba}
    {name : String} :
    table.find? c.hex = some name ↔ (⟨c, name⟩ : ColorToken) ∈ table.tokens := by
  rw [h.find?_eq_some_iff_mem]
  constructor
  · rintro ⟨t, ht, hhex, rfl⟩
    obtain rfl : t.rgba = c := Rgba.hex_inj hhex
    exact ht
  · intro hmem
    exact ⟨⟨c, name⟩, hmem, rfl, rfl⟩

end ColorTable

end DesignComponents
