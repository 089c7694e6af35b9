import Mathlib.Algebra.Order.Field.Power
import Mathlib.Algebra.Order.Field.Rat
import Mathlib.Order.WithBot
import Mathlib.Tactic.Ring
import DesignComponents.Number.Binary

/-!
# Values of floating numbers

A finite number is a rational, and the infinities lie at the two ends of the line of rationals.
Whatever is a number is compared by where it lies there; both zeros lie in the same place.
-/

namespace DesignComponents.Binary

variable {f : BinaryFormat}

def toRat : Binary f → ℚ
  | finite negative m e _ => (if negative then -(m : ℚ) else m) * 2 ^ e
  | _ => 0

/-- Where a number lies between the infinities. What is no number is put to the lower end. -/
def point : Binary f → WithBot (WithTop ℚ)
  | nan => ⊥
  | infinite negative => if negative then ⊥ else ⊤
  | finite negative m e h => WithBot.some (WithTop.some (finite negative m e h).toRat)

theorem toRat_finite (negative : Bool) (m : Nat) (e : Int) (h : f.Canonical m e) :
    (finite negative m e h).toRat = (units f negative m e : ℚ) * 2 ^ f.leastStep := by
  have hleast : f.leastStep ≤ e := h.2.1
  have hstep : (2 : ℚ) ^ e = 2 ^ (e - f.leastStep).toNat * 2 ^ f.leastStep := by
    have hsum : e = ((e - f.leastStep).toNat : Int) + f.leastStep := by omega
    conv_lhs => rw [hsum, zpow_add₀ two_ne_zero, zpow_natCast]
  rw [toRat, hstep, units]
  cases negative with
  | true =>
    simp only [if_true]
    push_cast
    ring
  | false =>
    simp only [Bool.false_eq_true, if_false]
    push_cast
    ring

theorem compare_units {m n : Nat} {d e : Int} (a b : Bool) (hm : f.Canonical m d)
    (hn : f.Canonical n e) :
    compare (units f a m d) (units f b n e) =
      compare (finite a m d hm).toRat (finite b n e hn).toRat := by
  have hstep : (0 : ℚ) < 2 ^ f.leastStep := zpow_pos two_pos _
  have hlt : ∀ i j : Int, (i : ℚ) * 2 ^ f.leastStep < j * 2 ^ f.leastStep ↔ i < j := by
    intro i j
    rw [mul_lt_mul_iff_left₀ hstep, Int.cast_lt]
  rw [toRat_finite, toRat_finite]
  rcases lt_trichotomy (units f a m d) (units f b n e) with h | h | h
  · rw [compare_lt_iff_lt.mpr h, compare_lt_iff_lt.mpr ((hlt _ _).mpr h)]
  · rw [h, compare_eq_iff_eq.mpr rfl, compare_eq_iff_eq.mpr rfl]
  · rw [compare_gt_iff_gt.mpr h, compare_gt_iff_gt.mpr ((hlt _ _).mpr h)]

theorem compare_coe (p q : ℚ) :
    compare (WithBot.some (WithTop.some p)) (WithBot.some (WithTop.some q)) = compare p q := by
  rcases lt_trichotomy p q with h | h | h
  · rw [compare_lt_iff_lt.mpr h, compare_lt_iff_lt]
    exact WithBot.coe_lt_coe.mpr (WithTop.coe_lt_coe.mpr h)
  · rw [h, compare_eq_iff_eq.mpr rfl, compare_eq_iff_eq.mpr rfl]
  · rw [compare_gt_iff_gt.mpr h, compare_gt_iff_gt]
    exact WithBot.coe_lt_coe.mpr (WithTop.coe_lt_coe.mpr h)

/-- Numbers are compared by where they lie. -/
theorem compare?_eq_compare_point {x y : Binary f} (hx : x.isNaN = false)
    (hy : y.isNaN = false) : compare? x y = some (compare x.point y.point) := by
  cases x with
  | nan => cases hx
  | infinite a =>
    cases y with
    | nan => cases hy
    | infinite b => cases a <;> cases b <;> rfl
    | finite b n e hn => cases a <;> rfl
  | finite a m d hm =>
    cases y with
    | nan => cases hy
    | infinite b => cases b <;> rfl
    | finite b n e hn =>
      change some (compare (units f a m d) (units f b n e)) = _
      rw [compare_units a b hm hn, ← compare_coe]
      rfl

end DesignComponents.Binary
