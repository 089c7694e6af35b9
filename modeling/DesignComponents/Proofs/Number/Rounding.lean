import Mathlib.Tactic.FieldSimp
import Mathlib.Tactic.Linarith
import Mathlib.Tactic.Positivity
import Mathlib.Tactic.Ring
import DesignComponents.Proofs.Number.SquareRoots
import DesignComponents.Proofs.Number.Values

/-!
# What is rounded to a number

A ratio is rounded to a finite number if and as soon as it lies no farther from it than half way
to the neighbours, and half way only where the significand is even. Below a power of two the
neighbour is nearer than above it.
-/

namespace DesignComponents

attribute [local instance (high)] instPowNat

/-- The value lies between the bounds, on one of them only if they are included. -/
def Between (closed : Prop) (low high x : ℚ) : Prop :=
  (low ≤ x ∧ x ≤ high) ∧ (x = low ∨ x = high → closed)

namespace Between

variable {closed : Prop} {low high x : ℚ}

theorem of_lt (hlow : low < x) (hhigh : x < high) : Between closed low high x := by
  refine ⟨⟨hlow.le, hhigh.le⟩, ?_⟩
  rintro (h | h)
  · exact absurd h hlow.ne'
  · exact absurd h hhigh.ne

theorem mul_iff {p : ℚ} (hp : 0 < p) :
    Between closed (low * p) (high * p) (x * p) ↔ Between closed low high x := by
  rw [Between, Between, mul_le_mul_iff_left₀ hp, mul_le_mul_iff_left₀ hp,
    mul_left_inj' hp.ne', mul_left_inj' hp.ne']

end Between

/-! ## Integers -/

theorem roundHalfEven_of_tie {num den m : Nat} (hden : 0 < den)
    (hlow : 2 * (m * den) ≤ 2 * num + den) (hhigh : 2 * num ≤ 2 * (m * den) + den)
    (htie : 2 * (m * den) = 2 * num + den ∨ 2 * num = 2 * (m * den) + den → m % 2 = 0) :
    roundHalfEven num den = m := by
  have hsplit : num / den * den + num % den = num := Nat.div_add_mod' num den
  have hrest : num % den < den := Nat.mod_lt num hden
  unfold roundHalfEven
  dsimp only
  generalize num / den = q at hsplit ⊢
  generalize num % den = r at hsplit hrest ⊢
  have hnear : m = q ∨ m = q + 1 := by
    rcases Nat.lt_trichotomy m q with hless | hsame | hmore
    · have := Nat.mul_le_mul_right den (Nat.succ_le_of_lt hless)
      rw [Nat.succ_mul] at this
      omega
    · exact .inl hsame
    · rcases Nat.eq_or_lt_of_le (Nat.succ_le_of_lt hmore) with hnext | hfar
      · exact .inr hnext.symm
      · have := Nat.mul_le_mul_right den (Nat.succ_le_of_lt hfar)
        rw [Nat.succ_mul, Nat.succ_mul] at this
        omega
  rcases hnear with rfl | rfl
  · have hhalf : 2 * r = den → m % 2 = 0 := fun h => htie (.inr (by omega))
    split
    · rfl
    · split <;> omega
  · have hnext : (q + 1) * den = q * den + den := Nat.succ_mul q den
    have hhalf : 2 * r = den → (q + 1) % 2 = 0 := fun h => htie (.inl (by omega))
    split
    · omega
    · split <;> omega

/-- A ratio no farther from an integer than a half, and a half only from an even one, is rounded to
this integer. -/
theorem roundHalfEven_eq {num den m : Nat} (hden : 0 < den)
    (h : Between (m % 2 = 0) (m - 1 / 2) (m + 1 / 2) ((num : ℚ) / den)) :
    roundHalfEven num den = m := by
  have hpos : (0 : ℚ) < den := Nat.cast_pos.mpr hden
  obtain ⟨⟨hlow, hhigh⟩, htie⟩ := h
  rw [le_div_iff₀ hpos] at hlow
  rw [div_le_iff₀ hpos] at hhigh
  rw [div_eq_iff hpos.ne', div_eq_iff hpos.ne'] at htie
  have hlow' : (2 : ℚ) * (m * den) ≤ 2 * num + den := by linarith
  have hhigh' : (2 : ℚ) * num ≤ 2 * (m * den) + den := by linarith
  refine roundHalfEven_of_tie hden (by exact_mod_cast hlow') (by exact_mod_cast hhigh') ?_
  rintro (hless | hmore)
  · have hlowest : (2 : ℚ) * (m * den) = 2 * num + den := by exact_mod_cast hless
    exact htie (.inl (by linarith))
  · have hhighest : (2 : ℚ) * num = 2 * (m * den) + den := by exact_mod_cast hmore
    exact htie (.inr (by linarith))

/-! ## Powers -/

theorem zpow_eq_div {b : ℚ} (hb : b ≠ 0) (e : Int) : b ^ e = b ^ e.toNat / b ^ (-e).toNat := by
  have hdifference : e = (e.toNat : Int) - ((-e).toNat : Int) := by omega
  conv_lhs => rw [hdifference, zpow_sub₀ hb, zpow_natCast, zpow_natCast]

theorem two_zpow_pos (e : Int) : (0 : ℚ) < 2 ^ e := zpow_pos two_pos e

theorem two_zpow_le {d e : Int} (h : d ≤ e) : (2 : ℚ) ^ d ≤ 2 ^ e :=
  zpow_le_zpow_right₀ one_le_two h

theorem two_zpow_add (d e : Int) : (2 : ℚ) ^ (d + e) = 2 ^ d * 2 ^ e := zpow_add₀ two_ne_zero d e

theorem log2_bounds {n : Nat} (h : 0 < n) :
    (2 : ℚ) ^ (n.log2 : Int) ≤ n ∧ (n : ℚ) < 2 ^ ((n.log2 : Int) + 1) := by
  have hlow : 2 ^ n.log2 ≤ n := Nat.log2_self_le h.ne'
  have hhigh : n < 2 ^ (n.log2 + 1) := Nat.lt_log2_self
  constructor
  · rw [zpow_natCast]
    exact_mod_cast hlow
  · have hpower : (2 : ℚ) ^ ((n.log2 : Int) + 1) = 2 ^ (n.log2 + 1) := by
      rw [← zpow_natCast, Nat.cast_succ]
    rw [hpower]
    exact_mod_cast hhigh

/-- The lengths of numerator and denominator bound the ratio. -/
theorem ratio_bounds {num den : Nat} (hnum : 0 < num) (hden : 0 < den) :
    (2 : ℚ) ^ ((num.log2 : Int) - den.log2 - 1) ≤ num / den ∧
      (num / den : ℚ) < 2 ^ ((num.log2 : Int) - den.log2 + 1) := by
  obtain ⟨hnumLow, hnumHigh⟩ := log2_bounds hnum
  obtain ⟨hdenLow, hdenHigh⟩ := log2_bounds hden
  have hpos : (0 : ℚ) < den := Nat.cast_pos.mpr hden
  constructor
  · rw [le_div_iff₀ hpos]
    have hproduct : (2 : ℚ) ^ (num.log2 : Int) =
        2 ^ ((num.log2 : Int) - den.log2 - 1) * 2 ^ ((den.log2 : Int) + 1) := by
      rw [← two_zpow_add]
      congr 1
      ring
    calc (2 : ℚ) ^ ((num.log2 : Int) - den.log2 - 1) * den
        ≤ 2 ^ ((num.log2 : Int) - den.log2 - 1) * 2 ^ ((den.log2 : Int) + 1) :=
          mul_le_mul_of_nonneg_left hdenHigh.le (two_zpow_pos _).le
      _ = 2 ^ (num.log2 : Int) := hproduct.symm
      _ ≤ num := hnumLow
  · rw [div_lt_iff₀ hpos]
    have hproduct : (2 : ℚ) ^ ((num.log2 : Int) + 1) =
        2 ^ ((num.log2 : Int) - den.log2 + 1) * 2 ^ (den.log2 : Int) := by
      rw [← two_zpow_add]
      congr 1
      ring
    calc (num : ℚ) < 2 ^ ((num.log2 : Int) + 1) := hnumHigh
      _ = 2 ^ ((num.log2 : Int) - den.log2 + 1) * 2 ^ (den.log2 : Int) := hproduct
      _ ≤ 2 ^ ((num.log2 : Int) - den.log2 + 1) * den :=
          mul_le_mul_of_nonneg_left hdenLow (two_zpow_pos _).le

theorem perStep_snd_pos {den : Nat} (hden : 0 < den) (num : Nat) (e : Int) :
    0 < (perStep num den e).2 := Nat.mul_pos hden (Nat.two_pow_pos _)

theorem div_perStep (num den : Nat) (e : Int) :
    ((perStep num den e).1 : ℚ) / (perStep num den e).2 = num / den / 2 ^ e := by
  rw [zpow_eq_div two_ne_zero, perStep]
  push_cast
  rw [div_div_eq_mul_div, div_mul_eq_mul_div, div_div]

/-! ## Steps -/

namespace Binary

variable {f : BinaryFormat}

theorem perStep_div_lt_iff (num : Nat) {den : Nat} (hden : 0 < den) (digits : Nat) (e : Int) :
    (perStep num den e).1 / (perStep num den e).2 < 2 ^ digits ↔
      (num / den : ℚ) < 2 ^ ((digits : Int) + e) := by
  have hpos := perStep_snd_pos hden num e
  have hposRat : (0 : ℚ) < (perStep num den e).2 := Nat.cast_pos.mpr hpos
  rw [two_zpow_add, zpow_natCast, ← div_lt_iff₀ (two_zpow_pos e), ← div_perStep,
    div_lt_iff₀ hposRat, Nat.div_lt_iff_lt_mul hpos]
  norm_cast

/-- The step is the least one for which the digits are enough. -/
theorem stepOf_spec (f : BinaryFormat) {num den : Nat} (hnum : 0 < num) (hden : 0 < den) :
    f.leastStep ≤ stepOf f num den ∧
      (num / den : ℚ) < 2 ^ ((f.digits : Int) + stepOf f num den) ∧
      (stepOf f num den = f.leastStep ∨
        (2 : ℚ) ^ ((f.digits : Int) - 1 + stepOf f num den) ≤ num / den) := by
  obtain ⟨hlow, hhigh⟩ := ratio_bounds hnum hden
  have hfits := perStep_div_lt_iff num hden f.digits
  unfold stepOf
  dsimp only
  generalize hguess : max f.leastStep ((num.log2 : Int) - den.log2 - f.digits) = guess
  by_cases hshort : (perStep num den guess).1 / (perStep num den guess).2 < 2 ^ f.digits
  · rw [if_pos hshort]
    refine ⟨by omega, (hfits guess).mp hshort, ?_⟩
    rcases max_choice f.leastStep ((num.log2 : Int) - den.log2 - f.digits) with hmax | hmax
    · exact .inl (hguess.symm.trans hmax)
    · refine .inr ((two_zpow_le ?_).trans hlow)
      omega
  · rw [if_neg hshort]
    rw [hfits, not_lt] at hshort
    refine ⟨by omega, hhigh.trans_le (two_zpow_le (by omega)), .inr ?_⟩
    refine le_trans (two_zpow_le ?_) hshort
    omega

/-! ## The nearest number -/

/-- Half the distance to the neighbour below, in steps. -/
def below (f : BinaryFormat) (m : Nat) (e : Int) : ℚ :=
  if m = 2 ^ (f.digits - 1) ∧ e ≠ f.leastStep then 1 / 4 else 1 / 2

theorem below_pos (f : BinaryFormat) (m : Nat) (e : Int) : 0 < below f m e := by
  unfold below
  split <;> norm_num

theorem below_le (f : BinaryFormat) (m : Nat) (e : Int) : below f m e ≤ 1 / 2 := by
  unfold below
  split <;> norm_num

/-- The magnitude is rounded to `m * 2 ^ e`. -/
def Rounds (f : BinaryFormat) (m : Nat) (e : Int) (q : ℚ) : Prop :=
  Between (m % 2 = 0) (m - below f m e) (m + 1 / 2) (q / 2 ^ e)

theorem rounds_iff {m : Nat} {e : Int} {q : ℚ} :
    Rounds f m e q ↔
      Between (m % 2 = 0) ((m - below f m e) * 2 ^ e) ((m + 1 / 2) * 2 ^ e) q := by
  rw [Rounds, ← Between.mul_iff (two_zpow_pos e), div_mul_cancel₀ _ (two_zpow_pos e).ne']

theorem rounds_self (f : BinaryFormat) (m : Nat) (e : Int) : Rounds f m e (m * 2 ^ e) := by
  have hbelow := below_pos f m e
  rw [Rounds, mul_div_cancel_right₀ _ (two_zpow_pos e).ne']
  exact .of_lt (by linarith) (by linarith)

theorem Rounds.between {m : Nat} {e : Int} {q : ℚ} (h : Rounds f m e q) :
    Between (m % 2 = 0) (m - 1 / 2) (m + 1 / 2) (q / 2 ^ e) := by
  obtain ⟨⟨hlow, hhigh⟩, htie⟩ := h
  have hbelow := below_le f m e
  refine ⟨⟨by linarith, hhigh⟩, ?_⟩
  rintro (hlowest | hhighest)
  · exact htie (.inl (by linarith))
  · exact htie (.inr hhighest)

theorem Rounds.le {m : Nat} {e : Int} {q : ℚ} (h : Rounds f m e q) :
    (m - 1 / 2 : ℚ) * 2 ^ e ≤ q ∧ q ≤ (m + 1 / 2) * 2 ^ e := by
  obtain ⟨⟨hlow, hhigh⟩, _⟩ := h.between
  rw [le_div_iff₀ (two_zpow_pos e)] at hlow
  rw [div_le_iff₀ (two_zpow_pos e)] at hhigh
  exact ⟨hlow, hhigh⟩

theorem natCast_two_pow_pred (hdigits : 0 < f.digits) :
    ((2 ^ (f.digits - 1) : Nat) : ℚ) = 2 ^ ((f.digits : Int) - 1) := by
  have hpred : (f.digits : Int) - 1 = ((f.digits - 1 : Nat) : Int) := by omega
  rw [hpred, zpow_natCast, Nat.cast_pow, Nat.cast_ofNat]

theorem two_pow_digits (hdigits : 0 < f.digits) : 2 ^ f.digits = 2 * 2 ^ (f.digits - 1) := by
  rw [Nat.mul_comm, ← Nat.pow_succ, Nat.succ_eq_add_one, Nat.sub_add_cancel hdigits]

/-- What is rounded to a number has the step of this number, or else the number is a power of two
and the magnitude below it. -/
theorem Rounds.stepOf_eq_or {m : Nat} {e : Int} (hdigits : 0 < f.digits) (h : f.Canonical m e)
    {num den : Nat} (hnum : 0 < num) (hden : 0 < den) (hq : Rounds f m e (num / den)) :
    stepOf f num den = e ∨
      m = 2 ^ (f.digits - 1) ∧ e ≠ f.leastStep ∧ stepOf f num den = e - 1 := by
  obtain ⟨hleast, hshort, hlong⟩ := stepOf_spec f hnum hden
  obtain ⟨hlow, hhigh⟩ := hq.le
  have hstep : f.leastStep ≤ e := h.2.1
  have hp := two_zpow_pos e
  have hfirst := natCast_two_pow_pred hdigits
  have hone : (1 : ℚ) ≤ 2 ^ ((f.digits : Int) - 1) := by
    rw [← hfirst]
    exact_mod_cast Nat.one_le_two_pow
  rcases lt_trichotomy (stepOf f num den) e with hless | hsame | hmore
  · -- The magnitude is below a power of two to which no smaller one is rounded.
    have hnormal : 2 ^ (f.digits - 1) ≤ m := h.2.2.2.resolve_right (by omega)
    have hfew : (num / den : ℚ) < 2 ^ ((f.digits : Int) - 1) * 2 ^ e := by
      rw [← two_zpow_add]
      exact hshort.trans_le (two_zpow_le (by omega))
    have hsmall : m ≤ 2 ^ (f.digits - 1) := by
      by_contra hlarge
      have hnext : ((2 ^ (f.digits - 1) : Nat) : ℚ) + 1 ≤ m := by exact_mod_cast not_le.mp hlarge
      rw [hfirst] at hnext
      nlinarith only [hlow, hfew, hnext, hp]
    have hpower : m = 2 ^ (f.digits - 1) := Nat.le_antisymm hsmall hnormal
    refine .inr ⟨hpower, by omega, ?_⟩
    by_contra hfar
    have hfewer : (num / den : ℚ) < 2 ^ ((f.digits : Int) - 1 + (e - 1)) :=
      hshort.trans_le (two_zpow_le (by omega))
    rw [two_zpow_add, zpow_sub_one₀ two_ne_zero e] at hfewer
    rw [hpower, hfirst] at hlow
    nlinarith only [hlow, hfewer, hone, hp]
  · exact .inl hsame
  · have hmany : (2 : ℚ) * 2 ^ ((f.digits : Int) - 1) * 2 ^ e ≤ num / den := by
      have hdouble : (2 : ℚ) * 2 ^ ((f.digits : Int) - 1) * 2 ^ e =
          2 ^ ((f.digits : Int) - 1 + (e + 1)) := by
        rw [two_zpow_add, zpow_add_one₀ two_ne_zero]
        ring
      rw [hdouble]
      exact (two_zpow_le (by omega)).trans (hlong.resolve_left (by omega))
    have hfits : (m : ℚ) + 1 ≤ 2 * 2 ^ ((f.digits : Int) - 1) := by
      have hless := h.1
      rw [two_pow_digits hdigits] at hless
      rw [← hfirst]
      exact_mod_cast hless
    nlinarith only [hhigh, hmany, hfits, hp]

theorem Rounds.num_pos {m num den : Nat} {e : Int} (hm : 0 < m) (hq : Rounds f m e (num / den)) :
    0 < num := by
  rw [Nat.pos_iff_ne_zero]
  rintro rfl
  have hone : (1 : ℚ) ≤ m := by exact_mod_cast hm
  have hlow := hq.le.1
  rw [Nat.cast_zero, zero_div] at hlow
  nlinarith only [hlow, hone, two_zpow_pos e]

/-- Below a power of two the steps are half as long, and rounding goes up to the power. -/
theorem Rounds.between_of_power {m : Nat} {e : Int} {q : ℚ} (hdigits : 0 < f.digits)
    (hm : m = 2 ^ (f.digits - 1)) (he : e ≠ f.leastStep) (hq : Rounds f m e q)
    (hless : q < 2 ^ ((f.digits : Int) + (e - 1))) :
    Between (2 ^ f.digits % 2 = 0) ((2 ^ f.digits : Nat) - 1 / 2) ((2 ^ f.digits : Nat) + 1 / 2)
      (q / 2 ^ (e - 1)) := by
  have heven : 2 ^ f.digits % 2 = 0 := by rw [two_pow_digits hdigits, Nat.mul_mod_right]
  have hlow := hq.1.1
  rw [below, if_pos ⟨hm, he⟩, hm, le_div_iff₀ (two_zpow_pos e)] at hlow
  rw [two_zpow_add, zpow_natCast, ← div_lt_iff₀ (two_zpow_pos _)] at hless
  refine ⟨⟨?_, ?_⟩, fun _ => heven⟩
  · rw [le_div_iff₀ (two_zpow_pos _), two_pow_digits hdigits, zpow_sub_one₀ two_ne_zero]
    push_cast at hlow ⊢
    linarith only [hlow]
  · push_cast
    linarith only [hless]

theorem nearest_eq_finite (hdigits : 0 < f.digits) {m : Nat} {e : Int} (h : f.Canonical m e)
    (hm : 0 < m) {num den : Nat} (hden : 0 < den) (hq : Rounds f m e (num / den)) (s : Bool) :
    nearest f s num den = finite s m e h := by
  have hnum := hq.num_pos hm
  have hround : ∀ (d : Int) (n : Nat),
      Between (n % 2 = 0) (n - 1 / 2) (n + 1 / 2) ((num / den : ℚ) / 2 ^ d) →
        roundHalfEven (perStep num den d).1 (perStep num den d).2 = n := by
    intro d n hn
    rw [← div_perStep] at hn
    exact roundHalfEven_eq (perStep_snd_pos hden num d) hn
  unfold nearest
  dsimp only
  rw [if_neg hnum.ne']
  rcases hq.stepOf_eq_or hdigits h hnum hden with hstep | ⟨hpower, hleast, hstep⟩
  · rw [hstep, hround e m hq.between, if_neg h.1.ne, ofStored, dif_pos h]
  · have hless := (stepOf_spec f hnum hden).2.1
    rw [hstep] at hless
    rw [hstep, hround (e - 1) (2 ^ f.digits) (hq.between_of_power hdigits hpower hleast hless),
      if_pos rfl, Int.sub_add_cancel, ← hpower, ofStored, dif_pos h]

end Binary

end DesignComponents
