import Mathlib.Data.List.TakeWhile
import DesignComponents.Number.Text
import DesignComponents.Proofs.Number.Rounding

/-!
# Decimals that are read back

The shortest decimal of a finite number is rounded to this number. So the plain form of a finite
number, its digits with a sign and a point, is read as the number itself.
-/

namespace DesignComponents

attribute [local instance (high)] instPowNat

theorem between_iff {closed : Prop} [Decidable closed] {low high x : ℚ} :
    Between closed low high x ↔
      if closed then low ≤ x ∧ x ≤ high else low < x ∧ x < high := by
  rw [Between]
  split
  · rename_i h
    exact and_iff_left fun _ => h
  · rename_i h
    constructor
    · rintro ⟨⟨hlow, hhigh⟩, hends⟩
      exact ⟨hlow.lt_of_ne fun heq => h (hends (.inl heq.symm)),
        hhigh.lt_of_ne fun heq => h (hends (.inr heq))⟩
    · rintro ⟨hlow, hhigh⟩
      exact Between.of_lt hlow hhigh

/-! ## Intervals -/

theorem ten_zpow_eq_div (n : Nat) (k : Int) :
    (n : ℚ) * 10 ^ k = ((n * 10 ^ k.toNat : Nat) : ℚ) / ((10 ^ (-k).toNat : Nat) : ℚ) := by
  rw [zpow_eq_div (by norm_num)]
  push_cast
  exact (mul_div_assoc _ _ _).symm

namespace Decimal

def value (d : Decimal) : ℚ := d.digits * 10 ^ d.exponent

end Decimal

namespace ReadBack

theorem covers_iff {r : ReadBack} (hden : 0 < r.denominator) (n : Nat) (k : Int) :
    r.covers n k = true ↔
      Between (r.closed = true) (r.low / r.denominator) (r.high / r.denominator) (n * 10 ^ k) := by
  have hunit : 0 < 10 ^ (-k).toNat := Nat.pow_pos (by decide)
  have hdenRat : (0 : ℚ) < r.denominator := Nat.cast_pos.mpr hden
  have hunitRat : (0 : ℚ) < (10 ^ (-k).toNat : Nat) := Nat.cast_pos.mpr hunit
  rw [between_iff, covers, ten_zpow_eq_div, div_le_div_iff₀ hdenRat hunitRat,
    div_le_div_iff₀ hunitRat hdenRat, div_lt_div_iff₀ hdenRat hunitRat,
    div_lt_div_iff₀ hunitRat hdenRat]
  cases r.closed <;> simp <;> norm_cast

theorem covers_of_multiple? {r : ReadBack} {rule : HalfwayRule} {k : Int} {n : Nat}
    (h : r.multiple? rule k = some n) : r.covers n k = true := by
  have hpicked : ∀ first second, (if r.covers first k then some first
      else if r.covers second k then some second else none) = some n → r.covers n k = true := by
    intro first second hsome
    split at hsome
    · rename_i hfirst
      rwa [← Option.some.inj hsome]
    · split at hsome
      · rename_i hsecond
        rwa [← Option.some.inj hsome]
      · cases hsome
  simp only [multiple?] at h
  split at h
  · exact hpicked _ _ h
  · exact hpicked _ _ h

theorem covers_of_search {r : ReadBack} {rule : HalfwayRule} {steps : Nat} {k : Int} {d : Decimal}
    (h : r.search rule steps k = some d) : r.covers d.digits d.exponent = true := by
  induction steps generalizing k with
  | zero => cases h
  | succ steps ih =>
    rw [search] at h
    split at h
    · rename_i n hn
      rw [← Option.some.inj h]
      exact covers_of_multiple? hn
    · exact ih h

/-- The interval of a number holds the decimals that are rounded to it. -/
theorem covers_ofStored_iff (f : BinaryFormat) {m : Nat} (hm : 0 < m) (e : Int) (n : Nat)
    (k : Int) : (ofStored f m e).covers n k = true ↔ Binary.Rounds f m e (n * 10 ^ k) := by
  have hfactor : ((2 ^ (e - 2).toNat : Nat) : ℚ) / ((2 ^ (2 - e).toNat : Nat) : ℚ) = 2 ^ e / 4 := by
    have hquarter : (2 : ℚ) ^ e / 4 = 2 ^ (e - 2) := by
      rw [zpow_sub₀ two_ne_zero]
      norm_num
    rw [hquarter, zpow_eq_div two_ne_zero, neg_sub]
    push_cast
    rfl
  have hlow : ((ofStored f m e).low : ℚ) / (ofStored f m e).denominator =
      (m - Binary.below f m e) * 2 ^ e := by
    simp only [ofStored, Binary.below]
    split
    · rw [Nat.cast_mul, mul_div_assoc, hfactor, Nat.cast_sub (by omega)]
      push_cast
      ring
    · rw [Nat.cast_mul, mul_div_assoc, hfactor, Nat.cast_sub (by omega)]
      push_cast
      ring
  have hhigh : ((ofStored f m e).high : ℚ) / (ofStored f m e).denominator =
      (m + 1 / 2) * 2 ^ e := by
    simp only [ofStored]
    rw [Nat.cast_mul, mul_div_assoc, hfactor]
    push_cast
    ring
  have hclosed : ((ofStored f m e).closed = true) = (m % 2 = 0) := by
    simp only [ofStored, beq_iff_eq]
  rw [covers_iff (Nat.two_pow_pos _), hlow, hhigh, hclosed, Binary.rounds_iff]

end ReadBack

open Binary

/-- The digits of a number down to its last place are a decimal of its value. -/
theorem value_last_places (m : Nat) (e : Int) :
    Decimal.value ⟨m * 2 ^ e.toNat * 5 ^ (-e).toNat, min 0 e⟩ = m * 2 ^ e := by
  have hlast : (10 : ℚ) ^ min 0 e = 1 / (2 ^ (-e).toNat * 5 ^ (-e).toNat) := by
    rw [zpow_eq_div (by norm_num), show (min 0 e).toNat = 0 by omega,
      show (-min 0 e).toNat = (-e).toNat by omega, pow_zero, ← mul_pow]
    norm_num
  rw [Decimal.value, hlast, zpow_eq_div two_ne_zero]
  push_cast
  field_simp

theorem rounds_shortestDecimal (f : BinaryFormat) (rule : HalfwayRule) {m : Nat} (hm : 0 < m)
    (e : Int) : Rounds f m e (shortestDecimal f rule m e).value := by
  unfold shortestDecimal
  dsimp only
  rw [if_neg hm.ne']
  split
  · rename_i d hd
    exact (ReadBack.covers_ofStored_iff f hm e d.digits d.exponent).mp
      (ReadBack.covers_of_search hd)
  · rw [value_last_places]
    exact rounds_self f m e

/-! ## Reading decimals -/

/-- The length of a decimal tells its size. -/
theorem decimal_bounds {n : Nat} (hn : 0 < n) (k : Int) :
    (10 : ℚ) ^ ((Nat.toDigits 10 n).length + k - 1) ≤ n * 10 ^ k ∧
      (n : ℚ) * 10 ^ k < 10 ^ ((Nat.toDigits 10 n).length + k) := by
  generalize hlength : (Nat.toDigits 10 n).length = length
  have hpos : 0 < length := hlength ▸ Nat.length_toDigits_pos
  have hlow : 10 ^ (length - 1) ≤ n := by
    rcases Nat.eq_zero_or_pos (length - 1) with hone | hmore
    · rw [hone]
      exact hn
    · rw [← Nat.not_lt, ← Nat.length_toDigits_le_iff (by decide) hmore]
      omega
  have hhigh : n < 10 ^ length :=
    (Nat.length_toDigits_le_iff (by decide) hpos).mp hlength.le
  have hten : (0 : ℚ) < 10 ^ k := zpow_pos (by norm_num) k
  constructor
  · have hpower : (10 : ℚ) ^ ((length : Int) + k - 1) = 10 ^ (length - 1) * 10 ^ k := by
      rw [← zpow_natCast, ← zpow_add₀ (by norm_num)]
      congr 1
      omega
    rw [hpower]
    exact mul_le_mul_of_nonneg_right (by exact_mod_cast hlow) hten.le
  · have hpower : (10 : ℚ) ^ ((length : Int) + k) = 10 ^ length * 10 ^ k := by
      rw [← zpow_natCast, ← zpow_add₀ (by norm_num)]
    rw [hpower]
    exact mul_lt_mul_of_pos_right (by exact_mod_cast hhigh) hten

/-- What is rounded to a number of the format has neither too many digits nor too many places to be
read. -/
theorem near_of_rounds {m : Nat} {e : Int} (h : BinaryFormat.double.Canonical m e) (hm : 0 < m)
    {n : Nat} {k : Int} (hn : 0 < n) (hq : Rounds .double m e (n * 10 ^ k)) :
    -farDigits ≤ (Nat.toDigits 10 n).length + k ∧ (Nat.toDigits 10 n).length + k ≤ farDigits := by
  obtain ⟨hlow, hhigh⟩ := hq.le
  obtain ⟨hshort, hlong⟩ := decimal_bounds hn k
  obtain ⟨hdigits, hleast, hgreatest, _⟩ := h
  have hone : (1 : ℚ) ≤ m := by exact_mod_cast hm
  have hfits : (m : ℚ) + 1 ≤ 2 ^ 53 := by exact_mod_cast hdigits
  rw [farDigits]
  constructor
  · by_contra hfar
    have hle : (10 : ℚ) ^ (((Nat.toDigits 10 n).length : Int) + k) ≤ 10 ^ (-401 : Int) :=
      zpow_le_zpow_right₀ (by norm_num) (by omega)
    have hleastValue : (1 / 2 : ℚ) * 2 ^ (-1074 : Int) ≤ (m - 1 / 2) * 2 ^ e :=
      mul_le_mul (by linarith only [hone]) (two_zpow_le hleast) (two_zpow_pos _).le
        (by linarith only [hone])
    have htiny : (10 : ℚ) ^ (-401 : Int) < 1 / 2 * 2 ^ (-1074 : Int) := by decide +kernel
    exact absurd (htiny.trans_le (hleastValue.trans hlow)) (hlong.trans_le hle).not_gt
  · by_contra hfar
    have hle : (10 : ℚ) ^ (400 : Int) ≤ 10 ^ (((Nat.toDigits 10 n).length : Int) + k - 1) :=
      zpow_le_zpow_right₀ (by norm_num) (by omega)
    have hgreatestValue : ((m : ℚ) + 1 / 2) * 2 ^ e ≤ 2 ^ 53 * 2 ^ (971 : Int) :=
      mul_le_mul (by linarith only [hfits]) (two_zpow_le hgreatest) (two_zpow_pos _).le
        (by norm_num)
    have hhuge : (2 : ℚ) ^ 53 * 2 ^ (971 : Int) < 10 ^ (400 : Int) := by decide +kernel
    exact absurd ((hle.trans hshort).trans (hhigh.trans hgreatestValue)) hhuge.not_ge

theorem ofDecimal_eq_finite {m : Nat} {e : Int} (h : BinaryFormat.double.Canonical m e)
    (hm : 0 < m) {n : Nat} {k : Int} (hq : Rounds .double m e (n * 10 ^ k)) (s : Bool) :
    ofDecimal .double s n k = finite s m e h := by
  have hratio := hq
  rw [ten_zpow_eq_div] at hratio
  have hden : 0 < 10 ^ (-k).toNat := Nat.pow_pos (by decide)
  have hn : 0 < n := Nat.pos_of_mul_pos_right (hratio.num_pos hm)
  obtain ⟨hlow, hhigh⟩ := near_of_rounds h hm hn hq
  unfold ofDecimal
  dsimp only
  rw [if_neg (by omega), if_neg (by omega)]
  exact nearest_eq_finite (by decide) h hm hden hratio s

theorem ofDecimal_zero {e : Int} (h : BinaryFormat.double.Canonical 0 e) (s : Bool) (k : Int) :
    ofDecimal .double s 0 k = finite s 0 e h := by
  have he : e = -1074 := h.2.2.2.resolve_left (by decide)
  subst he
  unfold ofDecimal
  dsimp only
  rw [if_pos (.inl rfl)]
  change ofStored .double s 0 (-1074) = _
  rw [ofStored, dif_pos h]

/-! ## Reading texts -/

/-- The number that digits stand for, with a sign in front and perhaps a point inside. -/
def readPlain? (cs : List Char) : Option Double :=
  let negative := cs.head? == some '-'
  let body := if negative then cs.tail else cs
  let whole := body.takeWhile (· ≠ '.')
  let places := (body.dropWhile (· ≠ '.')).tail
  if whole ≠ [] ∧ (whole ++ places).all Char.isDigit then
    some (ofDecimal .double negative (Nat.ofDigitChars 10 (whole ++ places) 0) (-places.length))
  else none

/-- The text consists of these digits, with a point between them if there are places. -/
structure IsPlainBody (body whole places : List Char) : Prop where
  whole_ne_nil : whole ≠ []
  isDigit : ∀ c ∈ whole ++ places, c.isDigit = true
  body_eq : body = whole ∧ places = [] ∨ body = whole ++ '.' :: places

namespace IsPlainBody

variable {body whole places : List Char}

theorem ne_of_mem_whole (h : IsPlainBody body whole places) {mark : Char}
    (hmark : mark.isDigit = false) : ∀ c ∈ whole, c ≠ mark := by
  rintro c hc rfl
  have hdigit := h.isDigit c (List.mem_append_left _ hc)
  rw [hmark] at hdigit
  cases hdigit

theorem takeWhile_eq (h : IsPlainBody body whole places) :
    body.takeWhile (· ≠ '.') = whole ∧ (body.dropWhile (· ≠ '.')).tail = places := by
  have hwhole : ∀ c ∈ whole, decide (c ≠ '.') = true :=
    fun c hc => decide_eq_true (h.ne_of_mem_whole (by decide) c hc)
  rcases h.body_eq with ⟨rfl, rfl⟩ | rfl
  · rw [List.takeWhile_eq_self_iff.mpr hwhole, List.dropWhile_eq_nil_iff.mpr hwhole]
    exact ⟨rfl, rfl⟩
  · rw [List.takeWhile_append_of_pos hwhole, List.dropWhile_append_of_pos hwhole]
    exact ⟨List.append_nil _, rfl⟩

theorem head?_ne (h : IsPlainBody body whole places) : body.head? ≠ some '-' := by
  intro hhead
  obtain ⟨c, rest, hcons⟩ := List.exists_cons_of_ne_nil h.whole_ne_nil
  have hbody : body.head? = some c := by
    rcases h.body_eq with ⟨rfl, _⟩ | rfl
    · rw [hcons, List.head?_cons]
    · rw [hcons, List.cons_append, List.head?_cons]
  rw [hbody] at hhead
  exact h.ne_of_mem_whole (by decide) c (hcons ▸ List.mem_cons_self) (Option.some.inj hhead)

theorem readPlain?_eq (h : IsPlainBody body whole places) (s : Bool) :
    readPlain? (signText s ++ body) =
      some (ofDecimal .double s (Nat.ofDigitChars 10 (whole ++ places) 0) (-places.length)) := by
  have hsign : ((signText s ++ body).head? == some '-') = s := by
    cases s
    · exact beq_false_of_ne h.head?_ne
    · rfl
  have hbody : (if s then (signText s ++ body).tail else signText s ++ body) = body := by
    cases s <;> rfl
  have hread : whole ≠ [] ∧ (whole ++ places).all Char.isDigit = true :=
    ⟨h.whole_ne_nil, List.all_eq_true.mpr h.isDigit⟩
  obtain ⟨htake, hdrop⟩ := h.takeWhile_eq
  unfold readPlain?
  dsimp only
  rw [hsign, hbody, htake, hdrop, if_pos hread]

end IsPlainBody

theorem isDigit_of_mem_toDigits {n : Nat} : ∀ c ∈ Nat.toDigits 10 n, c.isDigit = true :=
  fun _ hc => Nat.isDigit_of_mem_toDigits (by decide) (by decide) hc

theorem isDigit_of_mem_zeros {n : Nat} : ∀ c ∈ List.replicate n '0', c.isDigit = true := by
  intro c hc
  rw [List.eq_of_mem_replicate hc]
  decide

/-- The digits of the text have the value of the decimal. -/
def Spells (body : List Char) (d : Decimal) : Prop :=
  ∃ whole places, IsPlainBody body whole places ∧
    (Nat.ofDigitChars 10 (whole ++ places) 0 : ℚ) * 10 ^ (-(places.length : Int)) = d.value

theorem ofDigitChars_toDigits (n : Nat) : Nat.ofDigitChars 10 (Nat.toDigits 10 n) 0 = n :=
  Nat.ofDigitChars_ten_toDigits

theorem spells_whole {d : Decimal} (h : 0 ≤ d.exponent) :
    Spells (Nat.toDigits 10 d.digits ++ List.replicate d.exponent.toNat '0') d := by
  have hexponent : (10 : ℚ) ^ d.exponent = 10 ^ d.exponent.toNat := by
    rw [← zpow_natCast, Int.toNat_of_nonneg h]
  refine ⟨_, [], ⟨?_, ?_, .inl ⟨rfl, rfl⟩⟩, ?_⟩
  · exact List.append_ne_nil_of_left_ne_nil Nat.toDigits_ne_nil _
  · rw [List.append_nil]
    exact List.forall_mem_append.mpr ⟨isDigit_of_mem_toDigits, isDigit_of_mem_zeros⟩
  · rw [List.append_nil, Nat.ofDigitChars_append, ofDigitChars_toDigits,
      Nat.ofDigitChars_replicate_zero, Decimal.value, hexponent]
    push_cast
    simp [mul_comm]

/-- The point stands among the digits. -/
theorem spells_parted {d : Decimal} {k : Nat} (hk : d.exponent = -(k : Int))
    (h : k < (Nat.toDigits 10 d.digits).length) :
    Spells ((Nat.toDigits 10 d.digits).take ((Nat.toDigits 10 d.digits).length - k) ++
      '.' :: (Nat.toDigits 10 d.digits).drop ((Nat.toDigits 10 d.digits).length - k)) d := by
  refine ⟨_, _, ⟨List.ne_nil_of_length_pos ?_, ?_, .inr rfl⟩, ?_⟩
  · rw [List.length_take]
    omega
  · rw [List.take_append_drop]
    exact isDigit_of_mem_toDigits
  · rw [List.take_append_drop, ofDigitChars_toDigits, List.length_drop, Nat.sub_sub_self h.le,
      ← hk]
    rfl

/-- The point and perhaps some zeros stand in front of the digits. -/
theorem spells_places {d : Decimal} {k : Nat} (hk : d.exponent = -(k : Int))
    (h : ¬k < (Nat.toDigits 10 d.digits).length) :
    Spells ('0' :: '.' :: List.replicate (k - (Nat.toDigits 10 d.digits).length) '0' ++
      Nat.toDigits 10 d.digits) d := by
  have hzero : Nat.ofDigitChars 10 ['0'] 0 = 0 := rfl
  refine ⟨['0'], List.replicate (k - (Nat.toDigits 10 d.digits).length) '0' ++
    Nat.toDigits 10 d.digits, ⟨List.cons_ne_nil _ _, ?_, .inr rfl⟩, ?_⟩
  · refine List.forall_mem_append.mpr ⟨List.forall_mem_singleton.mpr (by decide), ?_⟩
    exact List.forall_mem_append.mpr ⟨isDigit_of_mem_zeros, isDigit_of_mem_toDigits⟩
  · rw [Nat.ofDigitChars_append, hzero, Nat.ofDigitChars_append, Nat.ofDigitChars_replicate_zero,
      Nat.mul_zero, ofDigitChars_toDigits, List.length_append, List.length_replicate,
      Nat.sub_add_cancel (Nat.le_of_not_lt h), ← hk]
    rfl

/-- The positional form has the digits of the decimal and as many places as it needs. -/
theorem spells_positional (d : Decimal) : Spells d.positional d := by
  unfold Decimal.positional
  dsimp only
  split
  · rename_i hwhole
    exact spells_whole hwhole
  · rename_i hplaces
    have hk : d.exponent = -((-d.exponent).toNat : Int) := by omega
    split
    · rename_i hparted
      exact spells_parted hk hparted
    · rename_i hunparted
      exact spells_places hk hunparted

/-- The plain form of a finite number is read as the number. -/
theorem readPlain?_plainChars (s : Bool) (m : Nat) (e : Int)
    (h : BinaryFormat.double.Canonical m e) :
    readPlain? (finite s m e h).plainChars = some (finite s m e h) := by
  obtain ⟨whole, places, hbody, hvalue⟩ := spells_positional (shortestDecimal .double .up m e)
  rw [plainChars, hbody.readPlain?_eq]
  rcases Nat.eq_zero_or_pos m with rfl | hm
  · have hzero : Nat.ofDigitChars 10 (whole ++ places) 0 = 0 := by
      rw [shortestDecimal, if_pos rfl, Decimal.value, Nat.cast_zero, zero_mul] at hvalue
      exact_mod_cast (mul_eq_zero_iff_right (zpow_pos (by norm_num) _).ne').mp hvalue
    rw [hzero, ofDecimal_zero h]
  · have hrounds := rounds_shortestDecimal .double .up hm e
    rw [← hvalue] at hrounds
    rw [ofDecimal_eq_finite h hm hrounds]

end DesignComponents
