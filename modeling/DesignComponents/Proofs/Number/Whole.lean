import Mathlib.Data.Rat.Floor
import DesignComponents.Number.Arithmetic
import DesignComponents.Proofs.Number.Rounding

/-!
# Whole numbers

A finite number other than zero is the only one of its value. Numbers with fewer digits than the
format keeps are held exactly, so rounding to an integer gives the integer, and it is told exactly
of which numbers the value is an integer.
-/

namespace DesignComponents

attribute [local instance (high)] instPowNat

/-- The nearest integer; a half goes away from zero. -/
def awayFromZero (q : ℚ) : Int := if q < 0 then -⌊-q + 1 / 2⌋ else ⌊q + 1 / 2⌋

theorem awayFromZero_of_nonneg {q : ℚ} (h : 0 ≤ q) : awayFromZero q = ⌊q + 1 / 2⌋ :=
  if_neg h.not_gt

theorem awayFromZero_neg (q : ℚ) : awayFromZero (-q) = -awayFromZero q := by
  unfold awayFromZero
  rw [neg_neg]
  rcases lt_trichotomy q 0 with h | rfl | h
  · rw [if_neg (by linarith), if_pos h, neg_neg]
  · norm_num
  · rw [if_pos (by linarith), if_neg h.not_gt]

theorem floor_intCast_add_half (z : Int) : ⌊(z : ℚ) + 1 / 2⌋ = z := by
  rw [Int.floor_eq_iff]
  constructor <;> linarith

theorem awayFromZero_intCast (z : Int) : awayFromZero z = z := by
  unfold awayFromZero
  rw [← Int.cast_neg, floor_intCast_add_half, floor_intCast_add_half, neg_neg, ite_self]

namespace Binary

variable {f : BinaryFormat}

def isFinite : Binary f → Bool
  | finite .. => true
  | _ => false

theorem exists_of_isFinite {x : Binary f} (h : x.isFinite = true) :
    ∃ s m e, ∃ hc : f.Canonical m e, x = finite s m e hc := by
  cases x with
  | nan | infinite _ => cases h
  | finite s m e hc => exact ⟨s, m, e, hc, rfl⟩

/-! ## Signs and magnitudes -/

/-- A magnitude with a sign. -/
def signed (s : Bool) (q : ℚ) : ℚ := if s then -q else q

theorem signed_eq_zero_iff (s : Bool) (q : ℚ) : signed s q = 0 ↔ q = 0 := by
  cases s
  · exact Iff.rfl
  · exact neg_eq_zero

theorem awayFromZero_signed (s : Bool) (q : ℚ) :
    (awayFromZero (signed s q) : ℚ) = signed s (awayFromZero q) := by
  cases s
  · rfl
  · change ((awayFromZero (-q) : Int) : ℚ) = -(awayFromZero q : ℚ)
    rw [awayFromZero_neg, Int.cast_neg]

theorem toRat_eq_signed (s : Bool) (m : Nat) (e : Int) (h : f.Canonical m e) :
    (finite s m e h).toRat = signed s (m * 2 ^ e) := by
  rw [toRat, signed]
  cases s
  · rfl
  · exact neg_mul _ _

theorem magnitude_eq_div (m : Nat) (e : Int) :
    (m : ℚ) * 2 ^ e = ((m * 2 ^ e.toNat : Nat) : ℚ) / ((2 ^ (-e).toNat : Nat) : ℚ) := by
  rw [zpow_eq_div two_ne_zero]
  push_cast
  exact (mul_div_assoc _ _ _).symm

theorem magnitude_eq_zero_iff (m : Nat) (e : Int) : (m : ℚ) * 2 ^ e = 0 ↔ m = 0 := by
  rw [mul_eq_zero, or_iff_left (two_zpow_pos e).ne', Nat.cast_eq_zero]

theorem isZero_iff {x : Binary f} (h : x.isFinite = true) : x.isZero = true ↔ x.toRat = 0 := by
  obtain ⟨s, m, e, hc, rfl⟩ := exists_of_isFinite h
  rw [toRat_eq_signed, signed_eq_zero_iff, magnitude_eq_zero_iff]
  cases m with
  | zero => exact iff_of_true rfl rfl
  | succ m => exact iff_of_false Bool.false_ne_true (Nat.succ_ne_zero m)

theorem isNaN_of_isFinite {x : Binary f} (h : x.isFinite = true) : x.isNaN = false := by
  obtain ⟨s, m, e, hc, rfl⟩ := exists_of_isFinite h
  rfl

theorem same_iff {x y : Binary f} (hx : x.isFinite = true) (hy : y.isFinite = true) :
    x.same y = true ↔ x.toRat = y.toRat := by
  rw [same, compare?_eq_compare_point (isNaN_of_isFinite hx) (isNaN_of_isFinite hy)]
  obtain ⟨s, m, e, hm, rfl⟩ := exists_of_isFinite hx
  obtain ⟨t, n, d, hn, rfl⟩ := exists_of_isFinite hy
  rw [point, point, compare_coe, beq_iff_eq, Option.some_inj, compare_eq_iff_eq]

/-- Finite numbers with the same value other than zero are the same. -/
theorem eq_of_toRat_eq (hdigits : 0 < f.digits) {x y : Binary f} (hx : x.isFinite = true)
    (hy : y.isFinite = true) (heq : x.toRat = y.toRat) (hne : x.toRat ≠ 0) : x = y := by
  obtain ⟨s, m, e, hm, rfl⟩ := exists_of_isFinite hx
  obtain ⟨t, n, d, hn, rfl⟩ := exists_of_isFinite hy
  have hneRight := heq ▸ hne
  rw [toRat_eq_signed, Ne, signed_eq_zero_iff, magnitude_eq_zero_iff] at hne hneRight
  have hmpos : (0 : ℚ) < m * 2 ^ e :=
    mul_pos (Nat.cast_pos.mpr (Nat.pos_of_ne_zero hne)) (two_zpow_pos e)
  have hnpos : (0 : ℚ) < n * 2 ^ d :=
    mul_pos (Nat.cast_pos.mpr (Nat.pos_of_ne_zero hneRight)) (two_zpow_pos d)
  rw [toRat_eq_signed, toRat_eq_signed] at heq
  have hsame : s = t ∧ (m : ℚ) * 2 ^ e = n * 2 ^ d := by
    cases s <;> cases t <;> simp only [signed, if_true, Bool.false_eq_true, if_false] at heq
    · exact ⟨rfl, heq⟩
    · linarith only [heq, hmpos, hnpos]
    · linarith only [heq, hmpos, hnpos]
    · exact ⟨rfl, neg_inj.mp heq⟩
  obtain ⟨rfl, hmagnitude⟩ := hsame
  have hself := rounds_self f m e
  have hother := rounds_self f n d
  rw [← hmagnitude] at hother
  rw [magnitude_eq_div] at hself hother
  -- Both are what one ratio is rounded to.
  rw [← nearest_eq_finite hdigits hm (Nat.pos_of_ne_zero hne) (Nat.two_pow_pos _) hself s,
    nearest_eq_finite hdigits hn (Nat.pos_of_ne_zero hneRight) (Nat.two_pow_pos _) hother s]

/-! ## Integers -/

/-- The places behind the point are none if and only if the magnitude is an integer. -/
theorem magnitude_of_mod_eq_zero {m : Nat} {e : Int} (h : m % 2 ^ (-e).toNat = 0) :
    (m : ℚ) * 2 ^ e = ((m / (2 ^ (-e).toNat : Nat) * 2 ^ e.toNat : Int) : ℚ) := by
  obtain ⟨q, rfl⟩ := Nat.dvd_of_mod_eq_zero h
  have hpos : 0 < 2 ^ (-e).toNat := Nat.two_pow_pos _
  have hquotient : ((2 ^ (-e).toNat * q : Nat) : Int) / (2 ^ (-e).toNat : Nat) = q := by
    rw [← Int.natCast_ediv, Nat.mul_div_cancel_left q hpos]
  rw [hquotient, magnitude_eq_div, div_eq_iff (Nat.cast_ne_zero.mpr hpos.ne')]
  push_cast
  ring

theorem mod_eq_zero_of_magnitude {m : Nat} {e : Int} {z : Int} (h : (m : ℚ) * 2 ^ e = z) :
    m % 2 ^ (-e).toNat = 0 := by
  rcases lt_or_ge e 0 with hplaces | hwhole
  · rw [magnitude_eq_div, show e.toNat = 0 by omega, Nat.pow_zero, Nat.mul_one,
      div_eq_iff (Nat.cast_ne_zero.mpr (Nat.two_pow_pos _).ne')] at h
    have hproduct : (m : Int) = z * (2 ^ (-e).toNat : Nat) := by exact_mod_cast h
    have hdvd : ((2 ^ (-e).toNat : Nat) : Int) ∣ m := ⟨z, by rw [hproduct, Int.mul_comm]⟩
    exact Nat.mod_eq_zero_of_dvd (Int.natCast_dvd_natCast.mp hdvd)
  · rw [show (-e).toNat = 0 by omega]
    exact Nat.mod_one m

theorem eq_intCast_of_signed {s : Bool} {q : ℚ} {z : Int} (h : signed s q = z) :
    q = (if s then -z else z : Int) := by
  cases s
  · exact h
  · exact neg_eq_iff_eq_neg.mp h |>.trans (Int.cast_neg z).symm

theorem toInt?_eq_some_iff {x : Binary f} (h : x.isFinite = true) (z : Int) :
    x.toInt? = some z ↔ x.toRat = z := by
  obtain ⟨s, m, e, hc, rfl⟩ := exists_of_isFinite h
  rw [toRat_eq_signed, toInt?]
  dsimp only
  by_cases hwhole : m % 2 ^ (-e).toNat = 0
  · rw [if_pos hwhole, magnitude_of_mod_eq_zero hwhole, Option.some_inj, signed]
    cases s
    · exact Int.cast_inj.symm
    · simp only [if_true]
      rw [← Int.cast_neg]
      exact Int.cast_inj.symm
  · rw [if_neg hwhole]
    refine iff_of_false (fun hsome => by cases hsome) fun hz => ?_
    exact hwhole (mod_eq_zero_of_magnitude (eq_intCast_of_signed hz))

theorem exists_canonical {n : Nat} (hpos : 0 < n) (hn : n < 2 ^ 53) :
    ∃ m e, BinaryFormat.double.Canonical m e ∧ (m : ℚ) * 2 ^ e = n := by
  have hlog : n.log2 < 53 := (Nat.log2_lt hpos.ne').mpr hn
  obtain ⟨hlow, hhigh⟩ := (Nat.log2_eq_iff hpos.ne').mp rfl
  have hshifted : ∀ k, 2 ^ k * 2 ^ (52 - n.log2) = 2 ^ (k + (52 - n.log2)) :=
    fun k => (Nat.pow_add 2 k _).symm
  refine ⟨n * 2 ^ (52 - n.log2), (n.log2 : Int) - 52, ⟨?_, ?_, ?_, .inl ?_⟩, ?_⟩
  · have hless := Nat.mul_lt_mul_of_pos_right hhigh (Nat.two_pow_pos (52 - n.log2))
    rwa [hshifted, show n.log2 + 1 + (52 - n.log2) = 53 by omega] at hless
  · simp only [BinaryFormat.double]
    omega
  · simp only [BinaryFormat.double]
    omega
  · have hmore := Nat.mul_le_mul_right (2 ^ (52 - n.log2)) hlow
    rwa [hshifted, show n.log2 + (52 - n.log2) = 52 by omega] at hmore
  · have hback : (2 : ℚ) ^ (52 - n.log2) * 2 ^ ((n.log2 : Int) - 52) = 1 := by
      have hsum : ((52 - n.log2 : Nat) : Int) + (n.log2 - 52) = 0 := by omega
      rw [← zpow_natCast, ← two_zpow_add, hsum, zpow_zero]
    push_cast
    rw [mul_assoc, hback, mul_one]

/-- An integer with no more digits than the format keeps is held exactly. -/
theorem nearest_natCast {n : Nat} (hn : n < 2 ^ 53) (s : Bool) :
    (nearest .double s n 1).isFinite = true ∧ (nearest .double s n 1).toRat = signed s n := by
  rcases Nat.eq_zero_or_pos n with rfl | hpos
  · cases s <;> decide +kernel
  · obtain ⟨m, e, hc, hvalue⟩ := exists_canonical hpos hn
    have hm : 0 < m := by
      rw [Nat.pos_iff_ne_zero]
      rintro rfl
      rw [Nat.cast_zero, zero_mul] at hvalue
      exact hpos.ne (Nat.cast_inj.mp hvalue)
    have hrounds := rounds_self .double m e
    rw [hvalue] at hrounds
    have hone : (n : ℚ) = n / (1 : Nat) := by rw [Nat.cast_one, div_one]
    rw [nearest_eq_finite (by decide) hc hm Nat.one_pos (hone ▸ hrounds) s, toRat_eq_signed, hvalue]
    exact ⟨rfl, rfl⟩

/-- The integer nearest to a ratio, a half being rounded up. -/
theorem floor_add_half (m : Nat) {w : Nat} (hw : 0 < w) :
    ⌊(m / w : ℚ) + 1 / 2⌋ = ((2 * m + w) / (2 * w) : Nat) := by
  have hpos : (0 : ℚ) < w := Nat.cast_pos.mpr hw
  have hratio : (m / w : ℚ) + 1 / 2 = ((2 * m + w : Nat) : ℚ) / ((2 * w : Nat) : ℚ) := by
    push_cast
    field_simp
  rw [hratio, Rat.floor_natCast_div_natCast, Int.natCast_ediv]

theorem round_spec {x : Double} (h : x.isFinite = true) :
    x.round.isFinite = true ∧ x.round.toRat = awayFromZero x.toRat := by
  obtain ⟨s, m, e, hc, rfl⟩ := exists_of_isFinite h
  rw [toRat_eq_signed, awayFromZero_signed, round]
  by_cases hwhole : 0 ≤ e
  · rw [if_pos hwhole, toRat_eq_signed]
    have hmod : m % 2 ^ (-e).toNat = 0 := by
      rw [show (-e).toNat = 0 by omega]
      exact Nat.mod_one m
    rw [magnitude_of_mod_eq_zero hmod, awayFromZero_intCast]
    exact ⟨rfl, rfl⟩
  · rw [if_neg hwhole]
    dsimp only
    have hpos : 0 < 2 ^ (-e).toNat := Nat.two_pow_pos _
    have htwo : 2 ≤ 2 ^ (-e).toNat := Nat.le_self_pow (by omega) 2
    have hmagnitude : (m : ℚ) * 2 ^ e = m / (2 ^ (-e).toNat : Nat) := by
      rw [magnitude_eq_div, show e.toNat = 0 by omega, Nat.pow_zero, Nat.mul_one]
    rw [awayFromZero_of_nonneg (by positivity), hmagnitude, floor_add_half m hpos, Int.cast_natCast]
    refine nearest_natCast ?_ s
    have hm : m < 2 ^ 53 := hc.1
    rw [Nat.div_lt_iff_lt_mul (by omega)]
    omega

end Binary

end DesignComponents
