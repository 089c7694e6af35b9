import Mathlib.Data.List.Induction
import DesignComponents.Proofs.Color.TableIndex

/-!
# The entries of a table

Two tokens decide on the entry of a color: it stands where the first token of the color put it,
and it is the last one. This module follows both along the tokens that a table is built from.
-/

namespace DesignComponents.ColorTable

/-- The last token of a color. -/
def lastOf (c : Rgba) (tokens : List ColorToken) : Option ColorToken :=
  (tokens.filter (·.rgba = c)).getLast?

theorem lastOf_concat (c : Rgba) (tokens : List ColorToken) (token : ColorToken) :
    lastOf c (tokens ++ [token]) = if token.rgba = c then some token else lastOf c tokens := by
  unfold lastOf
  rw [List.filter_append]
  by_cases h : token.rgba = c <;> simp [h]

theorem mem_of_lastOf {c : Rgba} {tokens : List ColorToken} {t : ColorToken}
    (h : lastOf c tokens = some t) : t ∈ tokens :=
  (List.mem_filter.mp (List.mem_of_getLast? h)).1

/-! ## One insertion -/

theorem mem_rename_iff {name : String} {position : Nat} {tokens : List ColorToken}
    {t : ColorToken} :
    t ∈ rename name position tokens ↔
      ∃ i u, tokens[i]? = some u ∧ (if i = position then { u with name } else u) = t := by
  simp only [List.mem_iff_getElem?, getElem?_rename, Option.map_eq_some_iff]

/-- A renamed entry and those of other colors: as no color stands twice, these are all. -/
theorem Indexed.mem_rename {table : ColorTable} (h : table.Indexed) {position : Nat}
    {old : ColorToken} (hold : table.tokens[position]? = some old) {name : String}
    {t : ColorToken} :
    t ∈ rename name position table.tokens ↔
      t = { old with name } ∨ (t ∈ table.tokens ∧ t.rgba ≠ old.rgba) := by
  rw [mem_rename_iff]
  constructor
  · rintro ⟨i, u, hu, rfl⟩
    by_cases hi : i = position
    · left
      subst hi
      rw [if_pos rfl, Option.some.inj (hu.symm.trans hold)]
    · right
      rw [if_neg hi]
      refine ⟨List.mem_of_getElem? hu, fun hsame => hi ?_⟩
      apply h.place_eq (c := old.rgba)
      · rw [getElem?_colors, hu, Option.map_some, hsame]
      · rw [getElem?_colors, hold, Option.map_some]
  · rintro (rfl | ⟨ht, hne⟩)
    · exact ⟨position, old, hold, if_pos rfl⟩
    · obtain ⟨i, hi⟩ := List.mem_iff_getElem?.mp ht
      refine ⟨i, t, hi, if_neg fun heq => hne ?_⟩
      subst heq
      rw [Option.some.inj (hi.symm.trans hold)]

/-- The entries after an insertion are the token itself and those of other colors. -/
theorem Indexed.mem_tokens_insert {table : ColorTable} (h : table.Indexed)
    {token t : ColorToken} :
    t ∈ (table.insert token).tokens ↔ t = token ∨ (t ∈ table.tokens ∧ t.rgba ≠ token.rgba) := by
  unfold ColorTable.insert
  dsimp only
  split
  · rename_i position hposition
    obtain ⟨c, hplace, hhex⟩ := (h _ position).mp hposition
    obtain rfl : c = token.rgba := Rgba.hex_inj hhex
    rw [getElem?_colors] at hplace
    obtain ⟨old, hold, hcolor⟩ := Option.map_eq_some_iff.mp hplace
    rw [h.mem_rename hold, hcolor]
  · rename_i hnone
    have hnew := h.not_mem hnone
    rw [List.mem_append, List.mem_singleton]
    constructor
    · rintro (ht | rfl)
      · exact .inr ⟨ht, fun hsame => hnew (hsame ▸ List.mem_map_of_mem ht)⟩
      · exact .inl rfl
    · rintro (rfl | ⟨ht, _⟩)
      · exact .inr rfl
      · exact .inl ht

theorem Indexed.colors_insert {table : ColorTable} (h : table.Indexed) (token : ColorToken) :
    (table.insert token).colors =
      if token.rgba ∈ table.colors then table.colors else table.colors ++ [token.rgba] := by
  rcases h.insert_cases token with ⟨hold, hcolors, _⟩ | ⟨hnew, hcolors, _⟩
  · rw [if_pos hold, hcolors]
  · rw [if_neg hnew, hcolors]

/-! ## All insertions -/

theorem ofTokens_concat (tokens : List ColorToken) (token : ColorToken) :
    ofTokens (tokens ++ [token]) = (ofTokens tokens).insert token :=
  List.foldl_append

theorem eraseDups_concat {α : Type} [DecidableEq α] (xs : List α) (x : α) :
    (xs ++ [x]).eraseDups = if x ∈ xs then xs.eraseDups else xs.eraseDups ++ [x] := by
  rw [List.eraseDups_append]
  by_cases h : x ∈ xs <;> simp [List.removeAll, h, List.eraseDups_cons]

/-- The colors stand in the order in which they come first among the tokens. -/
theorem colors_ofTokens (tokens : List ColorToken) :
    (ofTokens tokens).colors = (tokens.map (·.rgba)).eraseDups := by
  induction tokens using List.reverseRecOn with
  | nil => rfl
  | append_singleton tokens token ih =>
    rw [ofTokens_concat, (indexed_ofTokens tokens).colors_insert, ih, List.map_append,
      List.map_singleton, eraseDups_concat]
    simp only [List.mem_eraseDups]

theorem lastOf_of_mem {tokens : List ColorToken} {t : ColorToken}
    (h : t ∈ (ofTokens tokens).tokens) : lastOf t.rgba tokens = some t := by
  induction tokens using List.reverseRecOn with
  | nil => exact absurd h List.not_mem_nil
  | append_singleton tokens token ih =>
    rw [ofTokens_concat] at h
    rw [lastOf_concat]
    rcases (indexed_ofTokens tokens).mem_tokens_insert.mp h with rfl | ⟨ht, hne⟩
    · exact if_pos rfl
    · rw [if_neg hne.symm]
      exact ih ht

theorem mem_of_mem_ofTokens {tokens : List ColorToken} {t : ColorToken}
    (h : t ∈ (ofTokens tokens).tokens) : t ∈ tokens :=
  mem_of_lastOf (lastOf_of_mem h)

theorem tokens_ofTokens (tokens : List ColorToken) :
    (ofTokens tokens).tokens.map some =
      (tokens.map (·.rgba)).eraseDups.map (lastOf · tokens) := by
  rw [← colors_ofTokens, colors, List.map_map]
  apply List.map_congr_left
  intro t ht
  exact (lastOf_of_mem ht).symm

/-! ## Answers -/

theorem isSome_find?_ofTokens_iff {tokens : List ColorToken} {hex : String} :
    ((ofTokens tokens).find? hex).isSome ↔ ∃ t ∈ tokens, t.rgba.hex = hex := by
  rw [Option.isSome_iff_exists]
  simp only [(indexed_ofTokens tokens).find?_eq_some_iff_mem]
  constructor
  · rintro ⟨_, t, ht, hhex, _⟩
    exact ⟨t, mem_of_mem_ofTokens ht, hhex⟩
  · rintro ⟨t, ht, hhex⟩
    have hcolor : t.rgba ∈ (ofTokens tokens).colors := mem_colors_ofTokens.mpr ⟨t, ht, rfl⟩
    obtain ⟨u, hu, hsame⟩ := List.mem_map.mp hcolor
    exact ⟨u.name, u, hu, by rw [hsame, hhex], rfl⟩

theorem mem_of_nearestOf {c : Rgba} {tokens : List ColorToken} {t : ColorToken}
    (h : nearestOf c tokens = some t) : t ∈ tokens := by
  induction tokens generalizing t with
  | nil => exact absurd h (by simp [nearestOf])
  | cons u tokens ih =>
    rw [nearestOf] at h
    split at h
    · rw [← Option.some.inj h]
      exact List.mem_cons_self
    · rename_i v hv
      split at h
      · rw [← Option.some.inj h]
        exact List.mem_cons_of_mem u (ih hv)
      · rw [← Option.some.inj h]
        exact List.mem_cons_self

theorem name_of_resolve? {table : ColorTable} {c : Rgba} {name : String}
    (h : table.resolve? c = some name) : ∃ t ∈ table.tokens, t.name = name := by
  rcases Option.or_eq_some_iff.mp h with h | ⟨_, h⟩
  · obtain ⟨position, _, hname⟩ := Option.bind_eq_some_iff.mp h
    obtain ⟨t, ht, hname⟩ := Option.map_eq_some_iff.mp hname
    exact ⟨t, List.mem_of_getElem? ht, hname⟩
  · obtain ⟨t, ht, hname⟩ := Option.map_eq_some_iff.mp h
    exact ⟨t, mem_of_nearestOf ht, hname⟩

/-- A table built from any tokens has one entry for each of their colors, in the order in which
the colors come first, and each entry is the last token of its color. The index knows the
hexadecimal names of the entries, each with the place of its entry, and nothing else, so that a
text is found just when it is the hexadecimal name of a token. -/
theorem entries_of_tokens (tokens : List ColorToken) :
    (ofTokens tokens).colors = (tokens.map (·.rgba)).eraseDups ∧
      (ofTokens tokens).colors.Nodup ∧
      (ofTokens tokens).tokens.map some =
        (tokens.map (·.rgba)).eraseDups.map (lastOf · tokens) ∧
      (∀ (hex : String) (i : Nat), (ofTokens tokens).index[hex]? = some i ↔
        ∃ t, (ofTokens tokens).tokens[i]? = some t ∧ t.rgba.hex = hex) ∧
      (∀ hex name, (ofTokens tokens).find? hex = some name ↔
        ∃ t ∈ (ofTokens tokens).tokens, t.rgba.hex = hex ∧ t.name = name) ∧
      ∀ hex, ((ofTokens tokens).find? hex).isSome ↔ ∃ t ∈ tokens, t.rgba.hex = hex := by
  have hindexed := indexed_ofTokens tokens
  refine ⟨colors_ofTokens tokens, hindexed.nodup, tokens_ofTokens tokens, ?_, ?_, ?_⟩
  · intro hex i
    exact hindexed.index_eq_some_iff
  · intro hex name
    exact hindexed.find?_eq_some_iff_mem
  · intro hex
    exact isSome_find?_ofTokens_iff

end DesignComponents.ColorTable
