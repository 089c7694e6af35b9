import Mathlib.Tactic.Linarith
import Mathlib.Tactic.Ring
import DesignComponents.Proofs.Design.ReadingOrder
import DesignComponents.Proofs.Json.Numbers

/-!
# Square roots as floating numbers

The roots of two integers lie apart by so much that rounding cannot bring them together, as long
as the integers are not too large. So among the squares of distances between colors the smaller
one has the smaller root, also as a floating number.
-/

namespace DesignComponents

attribute [local instance (high)] instPowNat

/-! ## Integer roots -/

theorem squareRootFrom_spec {n : Nat} (bits root : Nat) (hlow : root * root ≤ n)
    (hhigh : n < (root + 2 ^ bits) * (root + 2 ^ bits)) :
    squareRootFrom n bits root * squareRootFrom n bits root ≤ n ∧
      n < (squareRootFrom n bits root + 1) * (squareRootFrom n bits root + 1) := by
  induction bits generalizing root with
  | zero => exact ⟨hlow, hhigh⟩
  | succ bits ih =>
    rw [squareRootFrom]
    split
    · rename_i hnext
      refine ih _ hnext ?_
      have hsum : root + 2 ^ bits + 2 ^ bits = root + 2 ^ (bits + 1) := by
        rw [Nat.pow_succ]
        omega
      rw [hsum]
      exact hhigh
    · rename_i hnext
      exact ih root hlow (Nat.lt_of_not_le hnext)

theorem squareRoot_spec (n : Nat) :
    squareRoot n * squareRoot n ≤ n ∧ n < (squareRoot n + 1) * (squareRoot n + 1) := by
  refine squareRootFrom_spec _ 0 (Nat.zero_le n) ?_
  rw [Nat.zero_add, ← Nat.pow_add]
  refine Nat.lt_of_lt_of_le Nat.lt_log2_self ?_
  exact Nat.pow_le_pow_right (by decide) (by omega)

/-! ## Rounding -/

/-- Rounding to an integer errs by half a unit at most. -/
theorem roundHalfEven_bounds (num : Nat) {den : Nat} (h : 0 < den) :
    2 * num ≤ 2 * (roundHalfEven num den * den) + den ∧
      2 * (roundHalfEven num den * den) ≤ 2 * num + den := by
  have hsplit : den * (num / den) + num % den = num := Nat.div_add_mod num den
  have hrest : num % den < den := Nat.mod_lt num h
  have hup : (num / den + 1) * den = den * (num / den) + den := by ring
  have hdown : num / den * den = den * (num / den) := Nat.mul_comm _ _
  unfold roundHalfEven
  dsimp only
  split
  · rw [hdown]
    omega
  · split
    · rw [hup]
      omega
    · -- A half is rounded up or down.
      rcases Nat.mod_two_eq_zero_or_one (num / den) with heven | hodd
      · rw [heven, Nat.add_zero, hdown]
        omega
      · rw [hodd, hup]
        omega

namespace Binary

theorem perStep_neg (num den s : Nat) : perStep num den (-(s : Int)) = (num * 2 ^ s, den) := by
  simp [perStep]

theorem double_digits : BinaryFormat.double.digits = 53 := rfl

theorem log2_eq {num s : Nat} (hs : s ≤ 52) (hlow : 2 ^ 117 ≤ num * 2 ^ s)
    (hhigh : num * 2 ^ s < 2 ^ 118) : num.log2 = 117 - s := by
  have hfirst : 2 ^ (117 - s) * 2 ^ s = 2 ^ 117 := by
    rw [← Nat.pow_add, Nat.sub_add_cancel (by omega)]
  have hnext : 2 ^ (117 - s + 1) * 2 ^ s = 2 ^ 118 := by
    rw [← Nat.pow_add, show 117 - s + 1 + s = 118 by omega]
  have hpos : 0 < 2 ^ s := Nat.two_pow_pos s
  have hle : 2 ^ (117 - s) ≤ num := by
    refine Nat.le_of_mul_le_mul_right ?_ hpos
    rw [hfirst]
    exact hlow
  have hlt : num < 2 ^ (117 - s + 1) := by
    refine Nat.lt_of_mul_lt_mul_right (a := 2 ^ s) ?_
    rw [hnext]
    exact hhigh
  have hne : num ≠ 0 := by
    have := Nat.two_pow_pos (117 - s)
    omega
  exact (Nat.log2_eq_iff hne).mpr ⟨hle, hlt⟩

theorem stepOf_eq {num s : Nat} (hs : s ≤ 52) (hlow : 2 ^ 117 ≤ num * 2 ^ s)
    (hhigh : num * 2 ^ s < 2 ^ 118) : stepOf .double num (2 ^ 65) = -(s : Int) := by
  have hlog := log2_eq hs hlow hhigh
  have hden : (2 ^ 65 : Nat).log2 = 65 := Nat.log2_two_pow
  have hguess : max BinaryFormat.double.leastStep
      ((num.log2 : Int) - ((2 ^ 65 : Nat).log2 : Int) - (BinaryFormat.double.digits : Int)) =
        -((s + 1 : Nat) : Int) := by
    rw [hlog, hden]
    simp only [BinaryFormat.double]
    omega
  unfold stepOf
  rw [hguess]
  dsimp only
  rw [perStep_neg]
  dsimp only
  have hbig : ¬ num * 2 ^ (s + 1) / 2 ^ 65 < 2 ^ BinaryFormat.double.digits := by
    have hdouble : num * 2 ^ (s + 1) = 2 * (num * 2 ^ s) := by ring
    rw [Nat.not_lt, Nat.le_div_iff_mul_le (Nat.two_pow_pos 65), double_digits, hdouble]
    omega
  rw [if_neg hbig]
  omega

theorem height_ofStored {m : Nat} {e : Int} (h : BinaryFormat.double.Canonical m e) :
    (ofStored .double false m e).tier = 0 ∧
      (ofStored .double false m e).height = m * 2 ^ (e + 1074).toNat := by
  rw [ofStored, dif_pos h]
  exact ⟨rfl, rfl⟩

/-- A ratio with the denominator `2 ^ 65` and a numerator of `118 - s` digits is rounded to a
multiple of `2 ^ -s`. -/
theorem nearest_eq {num s : Nat} (hs : s ≤ 52) (hlow : 2 ^ 117 ≤ num * 2 ^ s)
    (hhigh : num * 2 ^ s < 2 ^ 118) :
    (nearest .double false num (2 ^ 65)).tier = 0 ∧
      (nearest .double false num (2 ^ 65)).height =
        roundHalfEven (num * 2 ^ s) (2 ^ 65) * 2 ^ (1074 - s) := by
  have hne : num ≠ 0 := by
    rintro rfl
    omega
  obtain ⟨hup, hdown⟩ := roundHalfEven_bounds (num * 2 ^ s) (Nat.two_pow_pos 65)
  rw [nearest, if_neg hne, stepOf_eq hs hlow hhigh]
  dsimp only
  rw [perStep_neg]
  dsimp only
  generalize roundHalfEven (num * 2 ^ s) (2 ^ 65) = m at hup hdown ⊢
  have hm : 2 ^ 52 ≤ m ∧ m ≤ 2 ^ 53 := by omega
  have hexponent : (-(s : Int) + 1074).toNat = 1074 - s := by omega
  have hexponent' : (-(s : Int) + 1 + 1074).toNat = 1074 - s + 1 := by omega
  split
  · -- The significand has become too long by rounding up.
    rename_i hcarry
    have hcanonical : BinaryFormat.double.Canonical (2 ^ (BinaryFormat.double.digits - 1))
        (-(s : Int) + 1) := by
      refine ⟨by decide, ?_, ?_, .inl (Nat.le_refl _)⟩
      · simp only [BinaryFormat.double]
        omega
      · simp only [BinaryFormat.double]
        omega
    obtain ⟨htier, hheight⟩ := height_ofStored hcanonical
    refine ⟨htier, ?_⟩
    rw [hheight, hexponent', hcarry, double_digits]
    push_cast
    ring
  · rename_i hshort
    have hcanonical : BinaryFormat.double.Canonical m (-(s : Int)) := by
      rw [double_digits] at hshort
      refine ⟨?_, ?_, ?_, .inl ?_⟩
      · rw [double_digits]
        omega
      · simp only [BinaryFormat.double]
        omega
      · simp only [BinaryFormat.double]
        omega
      · rw [double_digits]
        exact hm.1
    obtain ⟨htier, hheight⟩ := height_ofStored hcanonical
    refine ⟨htier, ?_⟩
    rw [hheight, hexponent]

/-- The shift that brings a numerator to 118 digits. -/
theorem exists_shift {num : Nat} (hlow : 2 ^ 65 ≤ num) (hhigh : num < 2 ^ 76) :
    ∃ s, 42 ≤ s ∧ s ≤ 52 ∧ 2 ^ 117 ≤ num * 2 ^ s ∧ num * 2 ^ s < 2 ^ 118 := by
  have hne : num ≠ 0 := by omega
  have hfirst : 65 ≤ num.log2 := (Nat.le_log2 hne).mpr hlow
  have hlast : num.log2 < 76 := (Nat.log2_lt hne).mpr hhigh
  obtain ⟨hle, hlt⟩ := (Nat.log2_eq_iff hne).mp rfl
  refine ⟨117 - num.log2, by omega, by omega, ?_, ?_⟩
  · have hpow : 2 ^ num.log2 * 2 ^ (117 - num.log2) = 2 ^ 117 := by
      rw [← Nat.pow_add, Nat.add_sub_cancel' (by omega)]
    rw [← hpow]
    exact Nat.mul_le_mul_right _ hle
  · have hpow : 2 ^ (num.log2 + 1) * 2 ^ (117 - num.log2) = 2 ^ 118 := by
      rw [← Nat.pow_add]
      exact congrArg (2 ^ ·) (by omega)
    rw [← hpow]
    exact Nat.mul_lt_mul_of_pos_right hlt (Nat.two_pow_pos _)

/-- How many of the smallest steps of the format make one of `2 ^ -52`. -/
def smallSteps : Int := 2 ^ 1022

theorem smallSteps_pos : 0 < smallSteps := Int.pow_pos (by decide)

/-- What a ratio with the denominator `2 ^ 65` is rounded to, in steps of `2 ^ -52`, lies close to
it. -/
theorem nearest_close {num : Nat} (hlow : num = 0 ∨ 2 ^ 65 ≤ num) (hhigh : num < 2 ^ 76) :
    (nearest .double false num (2 ^ 65)).tier = 0 ∧
      ∃ v : Nat, (nearest .double false num (2 ^ 65)).height = v * smallSteps ∧
        num * 2 ^ 53 ≤ v * 2 ^ 66 + 2 ^ 75 ∧ v * 2 ^ 66 ≤ num * 2 ^ 53 + 2 ^ 75 := by
  rcases hlow with rfl | hlow
  · exact ⟨rfl, 0, (Int.zero_mul _).symm, by decide, by decide⟩
  · obtain ⟨s, hs, hs', hscaled, hscaled'⟩ := exists_shift hlow hhigh
    obtain ⟨htier, hheight⟩ := nearest_eq hs' hscaled hscaled'
    obtain ⟨hup, hdown⟩ := roundHalfEven_bounds (num * 2 ^ s) (Nat.two_pow_pos 65)
    generalize roundHalfEven (num * 2 ^ s) (2 ^ 65) = m at hheight hup hdown
    have hstep : (2 : Int) ^ (1074 - s) = 2 ^ (52 - s) * smallSteps := by
      rw [smallSteps, ← Int.pow_add]
      exact congrArg _ (by omega)
    have hfull : 2 ^ s * 2 ^ (52 - s) = 2 ^ 52 := by
      rw [← Nat.pow_add, Nat.add_sub_cancel' hs']
    have hsmall : 2 ^ (52 - s) ≤ 2 ^ 10 := Nat.pow_le_pow_right (by decide) (by omega)
    -- Both bounds in steps of `2 ^ -52`.
    have hup' := Nat.mul_le_mul_right (2 ^ (52 - s)) hup
    have hdown' := Nat.mul_le_mul_right (2 ^ (52 - s)) hdown
    have hnum : 2 * (num * 2 ^ s) * 2 ^ (52 - s) = 2 * num * 2 ^ 52 := by
      rw [← hfull]
      ring
    have hm : 2 * (m * 2 ^ 65) * 2 ^ (52 - s) = m * 2 ^ (52 - s) * 2 ^ 66 := by ring
    refine ⟨htier, m * 2 ^ (52 - s), ?_, ?_, ?_⟩
    · rw [hheight, hstep, ← Int.mul_assoc, Nat.cast_mul, Nat.cast_pow]
      rfl
    · rw [Nat.add_mul, hm, hnum] at hup'
      linarith only [hup', hsmall]
    · rw [Nat.add_mul, hm, hnum] at hdown'
      linarith only [hdown', hsmall]

end Binary

/-! ## Roots -/

/-- No square of a distance between colors is larger. -/
def farthest : Nat := 260100

/-- The root that is rounded, with 64 binary places. -/
def longRoot (n : Nat) : Nat := squareRoot (n * 4 ^ 64)

theorem longRoot_le {n : Nat} (h : n ≤ farthest) : longRoot n ≤ 510 * 2 ^ 64 := by
  have hle := (squareRoot_spec (n * 4 ^ 64)).1
  by_contra hgt
  have hlt : 510 * 2 ^ 64 < longRoot n := Nat.lt_of_not_le hgt
  have hsquare : 510 * 2 ^ 64 * (510 * 2 ^ 64) < longRoot n * longRoot n :=
    Nat.mul_lt_mul'' hlt hlt
  have hbound : n * 4 ^ 64 ≤ farthest * 4 ^ 64 := Nat.mul_le_mul_right _ h
  rw [farthest] at hbound
  rw [longRoot] at hsquare
  linarith only [hle, hsquare, hbound]

/-- The roots of different integers are far apart. -/
theorem longRoot_gap {m n : Nat} (hmn : m < n) (hn : n ≤ farthest) :
    longRoot m + 2 ^ 54 ≤ longRoot n := by
  have hm := (squareRoot_spec (m * 4 ^ 64)).1
  have hroot := (squareRoot_spec (n * 4 ^ 64)).2
  have hbound := longRoot_le (Nat.le_trans (Nat.le_of_lt hmn) hn)
  by_contra hnear
  have hle : longRoot n + 1 ≤ longRoot m + 2 ^ 54 := Nat.lt_of_not_le hnear
  have hsquare := Nat.mul_le_mul hle hle
  have hscaled : (m + 1) * 4 ^ 64 ≤ n * 4 ^ 64 := Nat.mul_le_mul_right _ hmn
  have hexpand : (longRoot m + 2 ^ 54) * (longRoot m + 2 ^ 54) =
      longRoot m * longRoot m + 2 ^ 55 * longRoot m + 2 ^ 108 := by ring
  rw [hexpand] at hsquare
  change longRoot m * longRoot m ≤ _ at hm
  change _ < (longRoot n + 1) * (longRoot n + 1) at hroot
  linarith only [hm, hroot, hbound, hsquare, hscaled]

theorem longRoot_zero : longRoot 0 = 0 := by decide

theorem le_longRoot {n : Nat} (hpos : 0 < n) : 2 ^ 64 ≤ longRoot n := by
  have hroot := (squareRoot_spec (n * 4 ^ 64)).2
  change _ < (longRoot n + 1) * (longRoot n + 1) at hroot
  by_contra hlow
  have hle : longRoot n + 1 ≤ 2 ^ 64 := Nat.lt_of_not_le hlow
  have hsquare := Nat.mul_le_mul hle hle
  have hscaled : 1 * 4 ^ 64 ≤ n * 4 ^ 64 := Nat.mul_le_mul_right _ hpos
  linarith only [hroot, hsquare, hscaled]

namespace Binary

theorem sqrtOfNat_eq (n : Nat) :
    ∃ cut ≤ 1, sqrtOfNat .double n = nearest .double false (2 * longRoot n + cut) (2 ^ 65) ∧
      (n = 0 → cut = 0) := by
  refine ⟨if longRoot n * longRoot n = n * 4 ^ 64 then 0 else 1, ?_, rfl, ?_⟩
  · split <;> decide
  · rintro rfl
    rw [longRoot_zero, Nat.zero_mul, if_pos rfl]

/-- The root of an integer as a floating number, in steps of `2 ^ -52`, up to an error. -/
theorem sqrtOfNat_close {n : Nat} (h : n ≤ farthest) :
    (sqrtOfNat .double n).tier = 0 ∧
      ∃ v : Nat, (sqrtOfNat .double n).height = v * smallSteps ∧
        longRoot n * 2 ^ 54 ≤ v * 2 ^ 66 + 2 ^ 75 ∧
          v * 2 ^ 66 ≤ (longRoot n + 1) * 2 ^ 54 + 2 ^ 75 := by
  obtain ⟨cut, hcut, hsqrt, hzero⟩ := sqrtOfNat_eq n
  have hbound := longRoot_le h
  have hnum : 2 * longRoot n + cut = 0 ∨ 2 ^ 65 ≤ 2 * longRoot n + cut := by
    rcases Nat.eq_zero_or_pos n with rfl | hpos
    · left
      rw [longRoot_zero, hzero rfl]
    · right
      have := le_longRoot hpos
      linarith only [this]
  have hhigh : 2 * longRoot n + cut < 2 ^ 76 := by linarith only [hbound, hcut]
  obtain ⟨htier, v, hheight, hup, hdown⟩ := nearest_close hnum hhigh
  rw [hsqrt]
  refine ⟨htier, v, hheight, ?_, ?_⟩
  · linarith only [hup]
  · linarith only [hdown, hcut]

/-- Different integers have different roots, in their order. -/
theorem height_sqrtOfNat_lt {m n : Nat} (hmn : m < n) (hn : n ≤ farthest) :
    (sqrtOfNat .double m).height < (sqrtOfNat .double n).height := by
  obtain ⟨_, v, hv, _, hv'⟩ := sqrtOfNat_close (Nat.le_trans (Nat.le_of_lt hmn) hn)
  obtain ⟨_, u, hu, hu', _⟩ := sqrtOfNat_close hn
  have hgap := longRoot_gap hmn hn
  have hlt : v < u := by
    by_contra hge
    have hle : u ≤ v := Nat.le_of_not_lt hge
    linarith only [hv', hu', hgap, hle]
  rw [hv, hu]
  exact Int.mul_lt_mul_of_pos_right (Int.ofNat_lt.mpr hlt) smallSteps_pos

theorem isNaN_sqrtOfNat (n : Nat) : (sqrtOfNat .double n).isNaN = false := isNaN_nearest ..

/-- Roots compare like the integers. -/
theorem compare?_sqrtOfNat {m n : Nat} (hm : m ≤ farthest) (hn : n ≤ farthest) :
    compare? (sqrtOfNat .double m) (sqrtOfNat .double n) = some (compare m n) := by
  rw [compare?_eq (isNaN_sqrtOfNat m) (isNaN_sqrtOfNat n), (sqrtOfNat_close hm).1,
    (sqrtOfNat_close hn).1]
  refine congrArg some ?_
  rcases Nat.lt_trichotomy m n with hlt | rfl | hgt
  · rw [Nat.compare_eq_lt.mpr hlt, compare_lt_iff_lt.mpr (height_sqrtOfNat_lt hlt hn)]
    rfl
  · simp
  · rw [Nat.compare_eq_gt.mpr hgt, compare_gt_iff_gt.mpr (height_sqrtOfNat_lt hgt hm)]
    rfl

theorem sqrtOfNat_lt_infinite {n : Nat} (h : n ≤ farthest) :
    (sqrtOfNat .double n).lt (infinite false) = true := by
  rw [lt, compare?_eq (isNaN_sqrtOfNat n) rfl, (sqrtOfNat_close h).1]
  rfl

end Binary

end DesignComponents
