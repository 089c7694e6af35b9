import Mathlib
import DesignComponents.Text.Blank

/-!
# Texts in lower case

In lower case an ASCII letter is its small letter and anything else in ASCII is itself. Of the
letters beyond ASCII two come to have an ASCII letter, and no other does, whatever it becomes. So a
word that does without these letters is found in a text in lower case where it is found when only
the ASCII letters are lowered, and nowhere else.
-/

namespace DesignComponents

/-! ## Letters by their numbers -/

theorem isUpper_iff_toNat (c : Char) : c.isUpper = true ↔ 65 ≤ c.toNat ∧ c.toNat ≤ 90 :=
  decide_eq_true_iff

theorem isLower_iff_toNat (c : Char) : c.isLower = true ↔ 97 ≤ c.toNat ∧ c.toNat ≤ 122 := by
  rw [Char.isLower, Bool.and_eq_true, decide_eq_true_eq, decide_eq_true_eq]
  exact Iff.rfl

theorem isAlpha_iff_toNat (c : Char) :
    c.isAlpha = true ↔ (65 ≤ c.toNat ∧ c.toNat ≤ 90) ∨ (97 ≤ c.toNat ∧ c.toNat ≤ 122) := by
  rw [Char.isAlpha, Bool.or_eq_true, isUpper_iff_toNat, isLower_iff_toNat]

theorem isAlphanum_iff_toNat (c : Char) :
    c.isAlphanum = true ↔
      ((65 ≤ c.toNat ∧ c.toNat ≤ 90) ∨ (97 ≤ c.toNat ∧ c.toNat ≤ 122)) ∨
        (48 ≤ c.toNat ∧ c.toNat ≤ 57) := by
  rw [Char.isAlphanum, Bool.or_eq_true, isAlpha_iff_toNat, Char.isDigit_iff_toNat]
  exact Iff.rfl

/-! ## Letters beyond ASCII -/

/-- Beyond ASCII. -/
def isForeign (c : Char) : Bool := 0x7F < c.toNat

/-- The sign for degrees of Kelvin, whose small letter is a plain one. -/
def kelvinSign : Char := Char.ofNat 0x212A

/-- The capital with a dot, which in lower case is a plain letter and the dot behind it. -/
def dottedCapital : Char := Char.ofNat 0x130

def dotAbove : Char := Char.ofNat 0x307

/-- What a letter beyond ASCII may be in lower case. -/
def IsLowered (c : Char) (part : List Char) : Prop :=
  if c = kelvinSign then part = ['k']
  else if c = dottedCapital then part = ['i', dotAbove]
  else part ≠ [] ∧ ∀ d ∈ part, isForeign d = true

/-- What a text may be in lower case. -/
inductive LowersTo : List Char → List Char → Prop where
  | nil : LowersTo [] []
  | ascii {c : Char} {cs ds : List Char} (hc : isForeign c = false) (h : LowersTo cs ds) :
    LowersTo (c :: cs) (c.toLower :: ds)
  | foreign {c : Char} {cs ds part : List Char} (hc : isForeign c = true)
    (hpart : IsLowered c part) (h : LowersTo cs ds) : LowersTo (c :: cs) (part ++ ds)

/-- A word of ASCII letters that no letter beyond ASCII has a share in. -/
def IsSettled (word : List Char) : Prop :=
  (∀ c ∈ word, isForeign c = false ∧ c ≠ 'k') ∧ word.getLast? ≠ some 'i'

theorem IsSettled.tail {c : Char} {word : List Char} (h : IsSettled (c :: word)) :
    IsSettled word := by
  refine ⟨fun d hd => h.1 d (List.mem_cons_of_mem c hd), ?_⟩
  intro hlast
  apply h.2
  rw [List.getLast?_cons, hlast]
  rfl

theorem toLower_of_isForeign {c : Char} (h : isForeign c = true) : c.toLower = c := by
  apply Char.toLower_eq_of_not_isUpper
  intro hupper
  have hbound : c.toNat ≤ 90 := ((isUpper_iff_toNat c).mp hupper).2
  have hforeign : 0x7F < c.toNat := of_decide_eq_true h
  omega

/-! ## Where no word begins -/

/-- No settled word but the empty one begins at any place of the part, whatever follows it. -/
def BeginsNoWord (part : List Char) : Prop :=
  ∀ front behind rest word, part = front ++ behind → behind ≠ [] → IsSettled word →
    word <+: behind ++ rest → word = []

theorem eq_nil_of_prefix_cons {word rest : List Char} {c : Char} (hword : IsSettled word)
    (hc : isForeign c = true ∨ c = 'k') (h : word <+: c :: rest) : word = [] := by
  cases word with
  | nil => rfl
  | cons d word =>
    obtain ⟨rfl, _⟩ := List.cons_prefix_cons.mp h
    obtain ⟨hforeign, hk⟩ := hword.1 d List.mem_cons_self
    rcases hc with hc | hc
    · rw [hforeign] at hc
      cases hc
    · exact absurd hc hk

/-- Behind a plain `i` comes a dot that is no part of a word, and no word ends with the `i`. -/
theorem eq_nil_of_prefix_dotted {word rest : List Char} (hword : IsSettled word)
    (h : word <+: 'i' :: dotAbove :: rest) : word = [] := by
  cases word with
  | nil => rfl
  | cons d word =>
    obtain ⟨rfl, hbehind⟩ := List.cons_prefix_cons.mp h
    have hnil := eq_nil_of_prefix_cons hword.tail (.inl (by decide)) hbehind
    rw [hnil] at hword
    exact absurd rfl hword.2

theorem IsLowered.ne_nil {c : Char} {part : List Char} (h : IsLowered c part) : part ≠ [] := by
  unfold IsLowered at h
  split at h
  · simp [h]
  · split at h
    · simp [h]
    · exact h.1

theorem IsLowered.beginsNoWord {c : Char} {part : List Char} (h : IsLowered c part) :
    BeginsNoWord part := by
  intro front behind rest word hpart hbehind hword hprefix
  obtain ⟨d, ds, rfl⟩ := List.exists_cons_of_ne_nil hbehind
  have hmem : d ∈ part := by simp [hpart]
  unfold IsLowered at h
  split at h
  · have hd : d = 'k' := by simpa [h] using hmem
    exact eq_nil_of_prefix_cons hword (.inr hd) hprefix
  · split at h
    · cases front with
      | nil =>
        rw [h] at hpart
        obtain ⟨rfl, rfl⟩ := List.cons.inj hpart
        exact eq_nil_of_prefix_dotted hword hprefix
      | cons first front =>
        rw [h] at hpart
        have hrest : d ∈ [dotAbove] := by
          rw [(List.cons.inj hpart).2]
          simp
        rw [List.mem_singleton.mp hrest] at hprefix
        exact eq_nil_of_prefix_cons hword (.inl (by decide)) hprefix
    · exact eq_nil_of_prefix_cons hword (.inl (h.2 d hmem)) hprefix

/-! ## Words in a text -/

theorem takeWhile_ne_eq_iff {a : Char} {word : List Char} (h : a ∉ word) (cs : List Char) :
    cs.takeWhile (· ≠ a) = word ↔ cs = word ∨ word ++ [a] <+: cs := by
  induction cs generalizing word with
  | nil => simp
  | cons c cs ih =>
    by_cases hc : c = a
    · subst hc
      rw [List.takeWhile_cons_of_neg (by simp)]
      cases word with
      | nil => simp
      | cons d word =>
        have hd : ¬d = c := fun heq => h (heq ▸ List.mem_cons_self)
        simp [hd, Ne.symm hd]
    · rw [List.takeWhile_cons_of_pos (by simpa using hc)]
      cases word with
      | nil => simp [Ne.symm hc]
      | cons d word =>
        rw [List.cons.injEq, ih fun hmem => h (List.mem_cons_of_mem d hmem), List.cons.injEq,
          List.cons_append, List.cons_prefix_cons, and_or_left, eq_comm (a := d)]

section Words

variable {cs ds word : List Char} (h : LowersTo cs ds) (hword : IsSettled word)
include h hword

theorem LowersTo.prefix_iff : word <+: ds ↔ word <+: cs.map Char.toLower := by
  induction h generalizing word with
  | nil => exact Iff.rfl
  | ascii hc h ih =>
    cases word with
    | nil => simp
    | cons d word =>
      rw [List.map_cons, List.cons_prefix_cons, List.cons_prefix_cons, ih hword.tail]
  | foreign hc hpart h ih =>
    rw [List.map_cons, toLower_of_isForeign hc]
    constructor
    · intro hprefix
      rw [hpart.beginsNoWord [] _ _ word rfl hpart.ne_nil hword hprefix]
      exact List.nil_prefix
    · intro hprefix
      rw [eq_nil_of_prefix_cons hword (.inl hc) hprefix]
      exact List.nil_prefix

theorem LowersTo.eq_iff : ds = word ↔ cs.map Char.toLower = word := by
  induction h generalizing word with
  | nil => exact Iff.rfl
  | ascii hc h ih =>
    cases word with
    | nil => simp
    | cons d word => rw [List.map_cons, List.cons.injEq, List.cons.injEq, ih hword.tail]
  | foreign hc hpart h ih =>
    rw [List.map_cons, toLower_of_isForeign hc]
    constructor
    · rintro rfl
      have hnil := hpart.beginsNoWord [] _ _ _ rfl hpart.ne_nil hword (List.prefix_refl _)
      exact absurd (List.append_eq_nil_iff.mp hnil).1 hpart.ne_nil
    · rintro rfl
      cases eq_nil_of_prefix_cons hword (.inl hc) (List.prefix_refl _)

/-- The part before the first hyphen is the word in both or in neither. -/
theorem LowersTo.takeWhile_iff (hhyphen : '-' ∉ word) :
    ds.takeWhile (· ≠ '-') = word ↔ (cs.map Char.toLower).takeWhile (· ≠ '-') = word := by
  have hmore : IsSettled (word ++ ['-']) := by
    refine ⟨fun c hc => ?_, by simp⟩
    rcases List.mem_append.mp hc with hc | hc
    · exact hword.1 c hc
    · rw [List.mem_singleton.mp hc]
      decide
  rw [takeWhile_ne_eq_iff hhyphen, takeWhile_ne_eq_iff hhyphen, h.eq_iff hword,
    h.prefix_iff hmore]

theorem LowersTo.infix_iff (hne : word ≠ []) : word <:+: ds ↔ word <:+: cs.map Char.toLower := by
  induction h with
  | nil => exact Iff.rfl
  | @ascii c cs ds hc h ih =>
    rw [List.map_cons, List.infix_cons_iff, List.infix_cons_iff, ih]
    exact or_congr_left ((LowersTo.ascii hc h).prefix_iff hword)
  | @foreign c cs ds part hc hpart h ih =>
    have hskip : ∀ front behind, part = front ++ behind →
        (word <:+: behind ++ ds ↔ word <:+: ds) := by
      intro front behind hsplit
      induction behind generalizing front with
      | nil => exact Iff.rfl
      | cons d behind ihb =>
        have hnot : ¬word <+: d :: (behind ++ ds) := fun hprefix =>
          hne (hpart.beginsNoWord front (d :: behind) ds word hsplit (List.cons_ne_nil d behind)
            hword hprefix)
        rw [List.cons_append, List.infix_cons_iff, or_iff_right hnot]
        exact ihb (front ++ [d]) (by rw [hsplit, List.append_assoc]; rfl)
    have hnot : ¬word <+: c.toLower :: cs.map Char.toLower := by
      rw [toLower_of_isForeign hc]
      exact fun hprefix => hne (eq_nil_of_prefix_cons hword (.inl hc) hprefix)
    rw [hskip [] part rfl, ih, List.map_cons, List.infix_cons_iff, or_iff_right hnot]

end Words

theorem occursIn_iff (part cs : List Char) : occursIn part cs = true ↔ part <:+: cs := by
  induction cs with
  | nil => simp [occursIn]
  | cons c cs ih => simp [occursIn, List.infix_cons_iff, ih]

end DesignComponents
