import ConstLang.Decimal.Rounding
import ConstLang.Proofs.Decimal.Value

/-!
# Rounded decimals and quotients

Rounding a decimal is rounding the number that it stands for, and a quotient that was cut at its
guard digit rounds to the same point as the quotient itself: the guard digit is never too far left
to tell.
-/

namespace ConstLang

open Digits Rational

/-- The rounding of a number to a grid. -/
def Rounding.apply : Rounding → ℚ → ℚ
  | places count => toPlaces count
  | significant count => toDigits count

theorem Rounding.apply_zero (rounding : Rounding) : rounding.apply 0 = 0 := by
  cases rounding with
  | places count => exact toPlaces_of_intCast (n := 0) (by simp)
  | significant count => exact toPlaces_of_intCast (n := 0) (by simp)

/-- A number of digits that a signed 64-bit word counts, and that is not zero. -/
def Rounding.InWord : Rounding → Prop
  | places _ => True
  | significant count => 0 < count ∧ count < 2 ^ 63

theorem Rounding.InWord.digits {rounding : Rounding} (h : rounding.InWord) :
    rounding ≠ .significant 0 := by
  rintro rfl
  exact absurd h.1 (Nat.lt_irrefl 0)

/-! ## The leading digit -/

theorem Digits.length_ofNat {n : ℕ} (nonzero : n ≠ 0) : (ofNat n).length = Nat.log 10 n + 1 := by
  refine eq_of_forall_ge_iff fun k => ?_
  rw [ofNat_eq_toDigits]
  rcases k.eq_zero_or_pos with rfl | pos
  · simp [Nat.length_toDigits_pos.ne']
  · rw [Nat.length_toDigits_le_iff (by norm_num) pos, Nat.succ_le_iff]
    exact (Nat.log_lt_iff_lt_pow (by norm_num) nonzero).symm

theorem Rational.log_mul_zpow {q : ℚ} (pos : 0 < q) (e : ℤ) :
    Int.log 10 (q * 10 ^ e) = Int.log 10 q + e := by
  have scaled : 0 < q * 10 ^ e := by positivity
  refine eq_of_forall_le_iff fun k => ?_
  rw [← Int.zpow_le_iff_le_log (by norm_num) scaled, ← sub_le_iff_le_add,
    ← Int.zpow_le_iff_le_log (by norm_num) pos, Nat.cast_ofNat, zpow_sub₀ (by norm_num),
    div_le_iff₀ (by positivity)]

namespace Decimal

theorem abs_toRat (x : Decimal) : |x.toRat| = x.mantissa.natAbs * 10 ^ x.exponent := by
  have pos : (0 : ℚ) < 10 ^ x.exponent := by positivity
  rw [toRat, abs_mul, abs_of_pos pos, Nat.cast_natAbs, Int.cast_abs]

theorem log_abs_toRat {x : Decimal} (nonzero : x.toRat ≠ 0) : Int.log 10 |x.toRat| = x.leading := by
  have natural : x.mantissa.natAbs ≠ 0 := by
    simpa [toRat_eq_zero] using nonzero
  rw [abs_toRat, log_mul_zpow (by positivity), Int.log_natCast, leading, digits,
    length_ofNat natural]
  push_cast
  ring

/-! ## Rounding -/

theorem dropDigits_eq (n : ℤ) (count : ℕ) : dropDigits n count = nearest (n / 10 ^ count : ℚ) := by
  rw [← tenTo_cast, nearest_intCast_div n (tenTo_pos count), dropDigits]

theorem toRat_round_places (x : Decimal) (count : ℤ) :
    (x.round (.places count)).toRat = toPlaces count x.toRat := by
  rw [round]
  split
  · next fits =>
    refine (toPlaces_of_intCast (n := x.mantissaAt (-count)) ?_).symm
    rw [← x.mantissaAt_mul (e := -count) (by omega), mul_assoc, ← zpow_add₀ (by norm_num)]
    simp
  · next less =>
    have drop : (10 : ℚ) ^ (-x.exponent - count).toNat = 10 ^ (-x.exponent - count) := by
      rw [← zpow_natCast, Int.toNat_of_nonneg (by omega)]
    have scaled : x.toRat * 10 ^ count = x.mantissa / 10 ^ (-x.exponent - count) := by
      rw [toRat, mul_assoc, ← zpow_add₀ (by norm_num), div_eq_mul_inv, ← zpow_neg]
      congr 2
      ring
    rw [toRat_normal, dropDigits_eq, drop, toPlaces, scaled, zpow_neg, ← div_eq_mul_inv]

/-- A number of significant digits is a number of places behind the leading digit. -/
theorem round_significant (x : Decimal) (count : ℕ) :
    x.round (.significant count) = x.round (.places (count - 1 - x.leading)) := by
  have gap : -x.exponent - (count - 1 - x.leading) = x.digits - count := by
    unfold leading
    ring
  simp only [round]
  by_cases few : x.digits ≤ count
  · rw [if_pos few, if_pos (by omega)]
  · rw [if_neg few, if_neg (by omega), gap]
    congr 1
    · congr 1
      omega
    · omega

theorem toRat_round_significant (x : Decimal) (count : ℕ) :
    (x.round (.significant count)).toRat = toDigits count x.toRat := by
  rw [round_significant, toRat_round_places, toDigits]
  by_cases zero : x.toRat = 0
  · rw [zero]
    exact (Rounding.apply_zero (.places _)).trans (Rounding.apply_zero (.places _)).symm
  · rw [log_abs_toRat zero]

theorem toRat_round (x : Decimal) (rounding : Rounding) :
    (x.round rounding).toRat = rounding.apply x.toRat := by
  cases rounding with
  | places count => exact x.toRat_round_places count
  | significant count => exact x.toRat_round_significant count

/-! ## Quotients -/

theorem guardPlaces_significant (x y : Decimal) (count : ℕ) :
    guardPlaces x y (.significant count) =
      Int.bmod count (Nat.pow 2 64) + 1 - (x.leading - y.leading) := rfl

/-- A count that a word holds does not wrap around. -/
theorem bmod_eq_self {count : ℕ} (small : count < 2 ^ 63) :
    Int.bmod count (Nat.pow 2 64) = count := by
  rw [Nat.pow_eq]
  exact Int.bmod_eq_of_le_mul_two (by omega) (by omega)

theorem toRat_cutQuotient (x y : Decimal) (places : ℤ) :
    (cutQuotient x y places).toRat = cut (x.toRat / y.toRat * 10 ^ places) / 10 ^ places := by
  have scaled : x.toRat / y.toRat * 10 ^ places =
      x.mantissa / y.mantissa * 10 ^ (x.exponent - y.exponent + places) := by
    rw [toRat, toRat, mul_div_mul_comm, ← zpow_sub₀ (by norm_num), mul_assoc,
      ← zpow_add₀ (by norm_num)]
  rw [cutQuotient, toRat_normal, scaled, zpow_neg, div_eq_mul_inv _ ((10 : ℚ) ^ places)]
  congr 2
  generalize x.exponent - y.exponent + places = shift
  split
  · next nonneg =>
    rw [← cut_intCast_div, Int.cast_mul, Int.cast_natCast, tenTo_cast, ← zpow_natCast,
      Int.toNat_of_nonneg nonneg, mul_div_right_comm]
  · next neg =>
    rw [← cut_intCast_div, Int.cast_mul, Int.cast_natCast, tenTo_cast, ← zpow_natCast,
      Int.toNat_of_nonneg (by omega), zpow_neg, ← div_div, div_inv_eq_mul]

/-- The leading digit of a quotient is at most one place behind the difference of those of its
operands. -/
theorem leading_sub_le_log {x y : Decimal} (hx : x.toRat ≠ 0) (hy : y.toRat ≠ 0) :
    x.leading - y.leading - 1 ≤ Int.log 10 |x.toRat / y.toRat| := by
  have hq : 0 < |x.toRat / y.toRat| := abs_pos.2 (div_ne_zero hx hy)
  have lower : (10 : ℚ) ^ x.leading ≤ |x.toRat| := by
    rw [← log_abs_toRat hx]
    exact_mod_cast Int.zpow_log_le_self (b := 10) (by norm_num) (abs_pos.2 hx)
  have upper : |y.toRat| ≤ 10 ^ (y.leading + 1) := by
    rw [← log_abs_toRat hy]
    exact_mod_cast (Int.lt_zpow_succ_log_self (b := 10) (by norm_num) |y.toRat|).le
  rw [← Int.zpow_le_iff_le_log (by norm_num) hq, Nat.cast_ofNat, sub_sub, zpow_sub₀ (by norm_num),
    abs_div]
  gcongr

theorem toRat_round_cutQuotient {x y : Decimal} {rounding : Rounding} (word : rounding.InWord)
    (hx : x.toRat ≠ 0) (hy : y.toRat ≠ 0) :
    ((cutQuotient x y (guardPlaces x y rounding)).round rounding).toRat =
      rounding.apply (x.toRat / y.toRat) := by
  rw [toRat_round, toRat_cutQuotient]
  cases rounding with
  | places count =>
    have guard : guardPlaces x y (.places count) = count + 1 := rfl
    rw [guard]
    exact toPlaces_cut (by omega) _
  | significant count =>
    obtain ⟨pos, small⟩ := word
    have leading := leading_sub_le_log hx hy
    rw [guardPlaces_significant, bmod_eq_self small]
    exact toDigits_cut pos (by omega) (div_ne_zero hx hy)

theorem div?_eq_none_iff {x y : Decimal} {rounding : Rounding} :
    x.div? y rounding = none ↔ y.toRat = 0 := by
  rw [← isZero_iff, div?]
  split
  · next zero => simp [zero]
  · next nonzero => split <;> simp [nonzero]

/-- A quotient is rounded once; there is none by zero. -/
theorem toRat_div? {x y z : Decimal} {rounding : Rounding} (word : rounding.InWord)
    (h : x.div? y rounding = some z) :
    y.toRat ≠ 0 ∧ z.toRat = rounding.apply (x.toRat / y.toRat) := by
  unfold div? at h
  split at h
  · contradiction
  · next hy =>
    have hy : y.toRat ≠ 0 := fun zero => hy (isZero_iff.2 zero)
    refine ⟨hy, ?_⟩
    split at h
    · next hx =>
      obtain rfl := Option.some.inj h
      rw [isZero_iff.1 hx, zero_div, toRat_zero, rounding.apply_zero]
    · next hx =>
      obtain rfl := Option.some.inj h
      exact toRat_round_cutQuotient word (fun zero => hx (isZero_iff.2 zero)) hy

end Decimal

end ConstLang
