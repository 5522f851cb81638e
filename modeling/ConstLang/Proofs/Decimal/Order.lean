import ConstLang.Proofs.Narrow.Decimal
import Mathlib.Order.Compare

/-!
# The order of decimals

Decimals are compared by sign, then by the position of the leading digit, and are brought to one
exponent only if both are the same. That is the order of the numbers they stand for, which is also
what a comparison of the aligned mantissas comes to. For decimals whose leading digit a signed
64-bit word can place, no step on the way overflows.
-/

namespace ConstLang

open Ordering

namespace Decimal

variable {x y z : Decimal}

/-! ## Signs and absolute values -/

theorem toRat_pos_iff : 0 < x.toRat ↔ 0 < x.mantissa := by
  have scale : (0 : ℚ) < 10 ^ x.exponent := by positivity
  rw [toRat, mul_pos_iff_of_pos_right scale, Int.cast_pos]

theorem toRat_neg_iff : x.toRat < 0 ↔ x.mantissa < 0 := by
  have mirrored := toRat_pos_iff (x := -x)
  rw [toRat_neg, neg_pos] at mirrored
  exact mirrored.trans neg_pos

@[simp] theorem toRat_abs (x : Decimal) : x.abs.toRat = |x.toRat| := by
  rw [abs_toRat]
  rfl

theorem toRat_lt_of_sign (h : x.mantissa.sign < y.mantissa.sign) : x.toRat < y.toRat := by
  rcases lt_trichotomy x.mantissa 0 with negative | zero | positive
  · have right : ¬ y.mantissa < 0 := by
      intro below
      rw [Int.sign_eq_neg_one_of_neg negative, Int.sign_eq_neg_one_of_neg below] at h
      exact lt_irrefl _ h
    exact (toRat_neg_iff.2 negative).trans_le (not_lt.1 (mt toRat_neg_iff.1 right))
  · rw [zero, Int.sign_zero, Int.sign_pos_iff] at h
    rw [toRat_eq_zero.2 zero]
    exact toRat_pos_iff.2 h
  · rw [Int.sign_eq_one_of_pos positive] at h
    have largest := Int.sign_trichotomy y.mantissa
    omega

/-- A leading digit that stands for a higher power of ten makes the larger number. -/
theorem abs_lt_abs_of_leading (hx : x.toRat ≠ 0) (hy : y.toRat ≠ 0)
    (h : x.leading < y.leading) : |x.toRat| < |y.toRat| := by
  rw [← log_abs_toRat hx, ← log_abs_toRat hy] at h
  exact lt_of_not_ge fun le => h.not_ge (Int.log_mono_right (abs_pos.2 hy) le)

/-! ## Comparisons -/

/-- The order of the mantissas, brought to one exponent whatever the distance. -/
def compareAligned (x y : Decimal) : Ordering :=
  let e := x.commonExponent y
  compare (x.mantissaAt e) (y.mantissaAt e)

theorem compares_compareAligned (x y : Decimal) :
    (compareAligned x y).Compares x.toRat y.toRat := by
  have scale : (0 : ℚ) < 10 ^ x.commonExponent y := by positivity
  rw [← left_mantissaAt_mul x y, ← right_mantissaAt_mul x y]
  cases order : compareAligned x y with
  | lt =>
    have less := compare_lt_iff_lt.1 order
    exact mul_lt_mul_of_pos_right (by exact_mod_cast less) scale
  | eq =>
    have same := compare_eq_iff_eq.1 order
    exact congrArg (fun m : ℤ => (m * 10 ^ x.commonExponent y : ℚ)) same
  | gt =>
    have more := compare_gt_iff_gt.1 order
    exact mul_lt_mul_of_pos_right (by exact_mod_cast more) scale

/-- Where leading digits stand for the same power of ten, the aligned mantissas decide. -/
theorem compares_compareAbs (hx : x.toRat ≠ 0) (hy : y.toRat ≠ 0) :
    (compareAbs x y).Compares |x.toRat| |y.toRat| := by
  unfold compareAbs
  cases order : compare x.leading y.leading with
  | lt => exact abs_lt_abs_of_leading hx hy (compare_lt_iff_lt.1 order)
  | gt => exact abs_lt_abs_of_leading hy hx (compare_gt_iff_gt.1 order)
  | eq =>
    rw [← toRat_abs, ← toRat_abs]
    exact compares_compareAligned x.abs y.abs

theorem compares_swap_of_neg {o : Ordering} {p q : ℚ} (h : o.Compares (-p) (-q)) :
    o.swap.Compares p q := by
  cases o with
  | lt => exact neg_lt_neg_iff.1 h
  | eq => exact neg_inj.1 h
  | gt => exact neg_lt_neg_iff.1 h

/-- Numbers of one sign are in the order of their absolute values, which is turned around below
zero. -/
theorem compares_of_sign_eq (sign : x.mantissa.sign = y.mantissa.sign) (nonzero : x.toRat ≠ 0) :
    (if x.isNegative then (compareAbs x y).swap else compareAbs x y).Compares x.toRat y.toRat := by
  have right : y.toRat ≠ 0 := by
    intro zero
    rw [toRat_eq_zero.1 zero, Int.sign_zero, Int.sign_eq_zero_iff_zero] at sign
    exact nonzero (toRat_eq_zero.2 sign)
  have absolute := compares_compareAbs nonzero right
  split
  · next negative =>
    have below : x.mantissa < 0 := by simpa [isNegative] using negative
    have also_below : y.mantissa < 0 := by
      rwa [Int.sign_eq_neg_one_of_neg below, eq_comm, Int.sign_eq_neg_one_iff_neg] at sign
    rw [abs_of_neg (toRat_neg_iff.2 below), abs_of_neg (toRat_neg_iff.2 also_below)] at absolute
    exact compares_swap_of_neg absolute
  · next nonnegative =>
    have above : 0 < x.mantissa := by
      have below : ¬ x.mantissa < 0 := by simpa [isNegative] using nonnegative
      exact lt_of_le_of_ne (not_lt.1 below) (Ne.symm (mt toRat_eq_zero.2 nonzero))
    have also_above : 0 < y.mantissa := by
      rwa [Int.sign_eq_one_of_pos above, eq_comm, Int.sign_eq_one_iff_pos] at sign
    rwa [abs_of_pos (toRat_pos_iff.2 above), abs_of_pos (toRat_pos_iff.2 also_above)] at absolute

theorem compares_compare (x y : Decimal) : (compare x y).Compares x.toRat y.toRat := by
  change (Decimal.compare x y).Compares _ _
  unfold Decimal.compare
  cases order : compare x.mantissa.sign y.mantissa.sign with
  | lt => exact toRat_lt_of_sign (compare_lt_iff_lt.1 order)
  | gt => exact toRat_lt_of_sign (compare_gt_iff_gt.1 order)
  | eq =>
    have sign : x.mantissa.sign = y.mantissa.sign := compare_eq_iff_eq.1 order
    rw [eq_then]
    by_cases zero : x.toRat = 0
    · have left := toRat_eq_zero.1 zero
      rw [left, Int.sign_zero, eq_comm, Int.sign_eq_zero_iff_zero] at sign
      rw [if_pos (isZero_iff.2 zero)]
      exact zero.trans (toRat_eq_zero.2 sign).symm
    · rw [if_neg (mt isZero_iff.1 zero)]
      exact compares_of_sign_eq sign zero

/-- Decimals are in the order of the numbers they stand for. -/
theorem compare_eq_compare_toRat (x y : Decimal) : compare x y = compare x.toRat y.toRat := by
  rw [← cmp_eq_compare]
  exact (compares_compare x y).cmp_eq.symm

instance : Std.TransOrd Decimal where
  eq_swap {x y} := by
    rw [compare_eq_compare_toRat x, compare_eq_compare_toRat y]
    exact Std.OrientedCmp.eq_swap
  isLE_trans {x y z} hxy hyz := by
    rw [compare_eq_compare_toRat] at *
    exact Std.TransCmp.isLE_trans hxy hyz

theorem IsNormal.compare_eq_iff (hx : x.IsNormal) (hy : y.IsNormal) :
    compare x y = .eq ↔ x = y := by
  rw [compare_eq_compare_toRat, compare_eq_iff_eq]
  exact ⟨hx.eq_of_toRat_eq hy, fun same => by rw [same]⟩

end Decimal

/-- A signed 64-bit word counts the digits of a decimal and holds the position of the leading
one. -/
structure Narrow.Placed (x : Decimal) : Prop where
  few : x.digits ≤ 2 ^ 63
  low : -2 ^ 63 ≤ x.leading
  high : x.leading < 2 ^ 63

theorem Narrow.Placed.leading_eq {x : Decimal} (h : Placed x) : leading x = .ok x.leading :=
  Narrow.leading_eq h.few h.low h.high

namespace Decimal

/-- The order of decimals in normal form is that of the numbers: no two of them are equal in it, it
is antisymmetric and transitive, and looking at signs and leading digits first never gives another
answer than aligned mantissas do. If words can place the leading digits, no step overflows. -/
theorem compare_exact {x y : Decimal} (hx : x.IsNormal) (hy : y.IsNormal) :
    compare x y = compare x.toRat y.toRat ∧
    (compare x y = .eq ↔ x = y) ∧
    compare y x = (compare x y).swap ∧
    (∀ z : Decimal, z.IsNormal →
      ((compare x y).isLE → (compare y z).isLE → (compare x z).isLE) ∧
      ∀ o, compare x y = o → compare y z = o → compare x z = o) ∧
    compare x y = compareAligned x y ∧
    (Narrow.Placed x → Narrow.Placed y → Narrow.order x y = .ok (compare x y)) := by
  refine ⟨compare_eq_compare_toRat x y, hx.compare_eq_iff hy, Std.OrientedCmp.eq_swap,
    fun z hz => ⟨Std.TransCmp.isLE_trans, fun o hxy hyz => ?_⟩, ?_, fun px py => ?_⟩
  · cases o with
    | lt => exact Std.TransCmp.lt_trans hxy hyz
    | eq => exact Std.TransCmp.eq_trans hxy hyz
    | gt => exact Std.TransCmp.gt_trans hxy hyz
  · rw [compare_eq_compare_toRat, ← cmp_eq_compare]
    exact (compares_compareAligned x y).cmp_eq
  · exact Narrow.order_eq px.leading_eq py.leading_eq

/-- Two negative numbers with leading digits at `10 ^ 40` and `10 ^ 39`, of which the second has
more digits. -/
theorem compare_exact_negative :
    (⟨-1, 40⟩ : Decimal).IsNormal ∧ (⟨-99999, 35⟩ : Decimal).IsNormal ∧
    compare (⟨-1, 40⟩ : Decimal) ⟨-99999, 35⟩ = .lt ∧
    compare (⟨-1, 40⟩ : Decimal).toRat (⟨-99999, 35⟩ : Decimal).toRat = .lt ∧
    compareAligned ⟨-1, 40⟩ ⟨-99999, 35⟩ = .lt ∧
    Narrow.order ⟨-1, 40⟩ ⟨-99999, 35⟩ = .ok .lt := by
  have hx : (⟨-1, 40⟩ : Decimal).IsNormal := by decide
  have hy : (⟨-99999, 35⟩ : Decimal).IsNormal := by decide
  have less : compare (⟨-1, 40⟩ : Decimal) ⟨-99999, 35⟩ = .lt := by decide +kernel
  obtain ⟨numbers, -, -, -, aligned, narrow⟩ := compare_exact hx hy
  have px : Narrow.Placed ⟨-1, 40⟩ := by constructor <;> decide +kernel
  have py : Narrow.Placed ⟨-99999, 35⟩ := by constructor <;> decide +kernel
  exact ⟨hx, hy, less, numbers ▸ less, aligned ▸ less, (narrow px py).trans (by rw [less])⟩

end Decimal

end ConstLang
