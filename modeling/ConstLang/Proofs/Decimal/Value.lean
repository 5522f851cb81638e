import ConstLang.Decimal.Basic
import ConstLang.Proofs.Rational

/-!
# The number that a decimal is

A decimal stands for the rational number `Decimal.toRat`. Bringing a decimal to normal form keeps
that number, and so do the mantissas that two decimals have at a common exponent; the exact
operations are therefore those of the rational numbers.
-/

namespace ConstLang

open Digits

theorem Digits.tenTo_cast (zeros : ℕ) : (tenTo zeros : ℚ) = 10 ^ zeros := by
  rw [tenTo, Nat.pow_eq, Nat.cast_pow, Nat.cast_ofNat]

namespace Decimal

/-- The number `mantissa * 10 ^ exponent`. -/
def toRat (x : Decimal) : ℚ := x.mantissa * 10 ^ x.exponent

theorem toRat_strip (k : ℕ) (mantissa exponent : ℤ) :
    (strip k mantissa exponent).toRat = mantissa * 10 ^ exponent := by
  fun_induction strip k mantissa exponent with
  | case1 => rfl
  | case2 k mantissa exponent zeros ih =>
    have unit_eq : (unit k : ℚ) = 10 ^ (Nat.pow 2 k : ℤ) := by
      rw [unit, tenTo_cast, zpow_natCast]
    have split : (mantissa : ℚ) = (mantissa / unit k : ℤ) * unit k := by
      exact_mod_cast (Int.ediv_mul_cancel (Int.dvd_of_emod_eq_zero zeros)).symm
    rw [ih, split, unit_eq, zpow_add₀ (by norm_num)]
    ring
  | case3 k mantissa exponent more ih => exact ih

@[simp] theorem toRat_normal (mantissa exponent : ℤ) :
    (normal mantissa exponent).toRat = mantissa * 10 ^ exponent := by
  unfold normal
  split
  · next zero => simp [toRat, zero]
  · exact toRat_strip _ _ _

theorem toRat_eq_zero {x : Decimal} : x.toRat = 0 ↔ x.mantissa = 0 := by
  have scale : (10 : ℚ) ^ x.exponent ≠ 0 := by positivity
  simp [toRat, scale]

theorem isZero_iff {x : Decimal} : x.isZero = true ↔ x.toRat = 0 := by
  simp [isZero, toRat_eq_zero]

@[simp] theorem toRat_zero : (0 : Decimal).toRat = 0 := toRat_eq_zero.2 rfl

@[simp] theorem toRat_neg (x : Decimal) : (-x).toRat = -x.toRat := by
  change ((-x.mantissa : ℤ) : ℚ) * 10 ^ x.exponent = _
  rw [Int.cast_neg, neg_mul]
  rfl

instance : InvolutiveNeg Decimal where
  neg_neg x := by
    change (⟨- -x.mantissa, x.exponent⟩ : Decimal) = x
    rw [neg_neg]

/-! ## Aligned mantissas -/

theorem mantissaAt_mul (x : Decimal) {e : ℤ} (h : e ≤ x.exponent) :
    (x.mantissaAt e : ℚ) * 10 ^ e = x.toRat := by
  have gap : ((x.exponent - e).toNat : ℤ) = x.exponent - e := Int.toNat_of_nonneg (by omega)
  rw [mantissaAt, Int.cast_mul, Int.cast_natCast, tenTo_cast, ← zpow_natCast, gap, mul_assoc,
    ← zpow_add₀ (by norm_num), sub_add_cancel]
  rfl

theorem left_mantissaAt_mul (x y : Decimal) :
    (x.mantissaAt (x.commonExponent y) : ℚ) * 10 ^ x.commonExponent y = x.toRat :=
  x.mantissaAt_mul (min_le_left _ _)

theorem right_mantissaAt_mul (x y : Decimal) :
    (y.mantissaAt (x.commonExponent y) : ℚ) * 10 ^ x.commonExponent y = y.toRat :=
  y.mantissaAt_mul (min_le_right _ _)

/-! ## Exact operations -/

@[simp] theorem toRat_add (x y : Decimal) : (x + y).toRat = x.toRat + y.toRat := by
  change (aligned (· + ·) x y).toRat = _
  rw [aligned, toRat_normal, Int.cast_add, add_mul, left_mantissaAt_mul, right_mantissaAt_mul]

@[simp] theorem toRat_sub (x y : Decimal) : (x - y).toRat = x.toRat - y.toRat := by
  change (aligned (· - ·) x y).toRat = _
  rw [aligned, toRat_normal, Int.cast_sub, sub_mul, left_mantissaAt_mul, right_mantissaAt_mul]

@[simp] theorem toRat_mul (x y : Decimal) : (x * y).toRat = x.toRat * y.toRat := by
  change (normal _ _).toRat = _
  rw [toRat_normal, Int.cast_mul, zpow_add₀ (by norm_num), mul_mul_mul_comm]
  rfl

/-- The remainder belongs to the quotient that is cut toward zero; there is none by zero. -/
theorem toRat_rem? {x y r : Decimal} (h : x.rem? y = some r) :
    y.toRat ≠ 0 ∧ r.toRat = x.toRat - y.toRat * Rational.cut (x.toRat / y.toRat) := by
  unfold rem? at h
  split at h
  · contradiction
  · next nonzero =>
    obtain rfl := Option.some.inj h
    have scale : (10 : ℚ) ^ x.commonExponent y ≠ 0 := by positivity
    refine ⟨fun zero => nonzero (isZero_iff.2 zero), ?_⟩
    rw [aligned, toRat_normal, ← left_mantissaAt_mul x y, ← right_mantissaAt_mul x y,
      mul_div_mul_right _ _ scale, Rational.cut_intCast_div, Int.tmod_def]
    push_cast
    ring

end Decimal

end ConstLang
