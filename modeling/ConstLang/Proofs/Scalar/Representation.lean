import ConstLang.Proofs.Decimal.Order

/-!
# What scalar types hold

An integer type holds the integers that a word of its width stands for, and a float type holds zero
and the numbers with few enough digits and an absolute value within its limits. The check of a
decimal finds exactly those, and of the others the reason. So large exponents can be refused without
writing an integer out, and the sign of its exponent tells whether a decimal is an integer.
-/

namespace ConstLang

/-! ## Integers -/

namespace Decimal

variable {x : Decimal}

/-- The exponent of a decimal in normal form is negative unless the number is an integer. -/
theorem IsNormal.toInt?_eq_some_iff (h : x.IsNormal) {n : ℤ} :
    x.toInt? = some n ↔ x.toRat = n := by
  refine ⟨toRat_of_toInt?, fun whole => ?_⟩
  have nonneg : 0 ≤ x.exponent := by
    by_cases zero : x.toRat = 0
    · obtain rfl := h.eq_zero zero
      exact le_rfl
    · exact h.exponent_le (y := ⟨n, 0⟩) zero (whole.trans (by simp [toRat]))
  have expanded : x.toInt? = some (x.mantissa * Digits.tenTo x.exponent.toNat) := if_pos nonneg
  have same := toRat_of_toInt? expanded
  rw [whole] at same
  rw [expanded, Int.cast_injective same]

theorem IsNormal.toInt?_eq_none_iff (h : x.IsNormal) : x.toInt? = none ↔ ∀ n : ℤ, x.toRat ≠ n := by
  rw [Option.eq_none_iff_forall_not_mem]
  exact forall_congr' fun n => not_congr h.toInt?_eq_some_iff

theorem IsNormal.pow_lt_abs (h : x.IsNormal) {e : ℕ} (large : e < x.exponent) :
    (10 ^ e : ℚ) < |x.toRat| := by
  have nonzero : x.mantissa.natAbs ≠ 0 := by
    intro zero
    obtain rfl : x = 0 := isNormal_iff.1 h (Int.natAbs_eq_zero.1 zero ▸ dvd_zero 10)
    exact absurd large (not_lt.2 (Int.natCast_nonneg e))
  have one_le : (1 : ℚ) ≤ x.mantissa.natAbs := by exact_mod_cast Nat.one_le_iff_ne_zero.2 nonzero
  rw [abs_toRat, ← zpow_natCast]
  calc (10 : ℚ) ^ (e : ℤ) < 10 ^ x.exponent := zpow_lt_zpow_right₀ (by norm_num) large
    _ ≤ x.mantissa.natAbs * 10 ^ x.exponent := le_mul_of_one_le_left (by positivity) one_le

end Decimal

namespace Format

variable {x : Decimal} {least greatest : ℤ} {words : Set ℤ}

/-- Why an integer format does not hold a decimal, found by writing every integer out. -/
def expandedMisfit? (least greatest : ℤ) (x : Decimal) : Option Misfit :=
  match x.toInt? with
  | none => some .notIntegral
  | some n => if least ≤ n ∧ n ≤ greatest then none else some .outOfRange

/-- An integer format has the integers of a set, and ends before those that are not written out. -/
structure Spans (least greatest : ℤ) (words : Set ℤ) : Prop where
  mem_iff : ∀ n, n ∈ words ↔ least ≤ n ∧ n ≤ greatest
  low : -10 ^ 20 ≤ least
  high : greatest ≤ 10 ^ 20

theorem misfit?_eq_expandedMisfit? (normal : x.IsNormal) (h : Spans least greatest words) :
    (integer least greatest).misfit? x = expandedMisfit? least greatest x := by
  rw [misfit?, expandedMisfit?]
  split
  · next large =>
    have exceeds := normal.pow_lt_abs (e := 20) large
    have nonneg : 0 ≤ x.exponent := le_trans (by decide) (le_of_lt large)
    have expanded : x.toInt? = some (x.mantissa * Digits.tenTo x.exponent.toNat) := if_pos nonneg
    rw [Decimal.toRat_of_toInt? expanded] at exceeds
    have exceeds : 10 ^ 20 < |x.mantissa * Digits.tenTo x.exponent.toNat| := by
      exact_mod_cast exceeds
    have low := h.low
    have high := h.high
    rw [expanded]
    refine (if_neg fun inside => ?_).symm
    exact absurd exceeds (not_lt.2 (abs_le.2 ⟨by omega, by omega⟩))
  · rfl

theorem expandedMisfit?_eq_none_iff (normal : x.IsNormal) (h : Spans least greatest words) :
    expandedMisfit? least greatest x = none ↔ ∃ n ∈ words, x.toRat = n := by
  simp only [← normal.toInt?_eq_some_iff, expandedMisfit?]
  cases x.toInt? with
  | none => simp
  | some n => by_cases inside : n ∈ words <;> simp [← h.mem_iff, inside]

theorem expandedMisfit?_eq_notIntegral_iff (normal : x.IsNormal) (least greatest : ℤ) :
    expandedMisfit? least greatest x = some .notIntegral ↔ ∀ n : ℤ, x.toRat ≠ n := by
  rw [← normal.toInt?_eq_none_iff, expandedMisfit?]
  cases x.toInt? with
  | none => simp
  | some n => by_cases inside : least ≤ n ∧ n ≤ greatest <;> simp [inside]

theorem expandedMisfit?_eq_outOfRange_iff (normal : x.IsNormal) (h : Spans least greatest words) :
    expandedMisfit? least greatest x = some .outOfRange ↔ ∃ n ∉ words, x.toRat = n := by
  simp only [← normal.toInt?_eq_some_iff, expandedMisfit?]
  cases x.toInt? with
  | none => simp
  | some n => by_cases inside : n ∈ words <;> simp [← h.mem_iff, inside]

/-! ## Floats -/

theorem misfit?_float (x : Decimal) (digits : ℕ) (low high : Decimal) :
    (float digits low high).misfit? x =
      if x.toRat = 0 then none
      else if digits < x.digits then some .tooPrecise
      else if high.toRat < |x.toRat| ∨ |x.toRat| < low.toRat then some .outOfRange
      else none := by
  have above : compare x.abs high = .gt ↔ high.toRat < |x.toRat| := by
    rw [Decimal.compare_eq_compare_toRat, compare_gt_iff_gt, Decimal.toRat_abs]
  have below : compare x.abs low = .lt ↔ |x.toRat| < low.toRat := by
    rw [Decimal.compare_eq_compare_toRat, compare_lt_iff_lt, Decimal.toRat_abs]
  simp only [misfit?, Decimal.isZero_iff, above, below]

end Format

namespace Decimal

/-- Zero has one digit. -/
theorem digits_of_toRat_eq_zero {x : Decimal} (zero : x.toRat = 0) : x.digits = 1 := by
  rw [digits, toRat_eq_zero.1 zero]
  decide

/-- The digits of a decimal in normal form are as many as its number needs. -/
theorem IsNormal.digits_le_iff {x : Decimal} (h : x.IsNormal) {count : ℕ} (pos : 0 < count) :
    x.digits ≤ count ↔ x.toRat ∈ (Rounding.significant count).grid := by
  by_cases zero : x.toRat = 0
  · rw [digits_of_toRat_eq_zero zero, zero]
    exact iff_of_true pos (Rounding.zero_mem_grid _)
  · have natural : x.mantissa.natAbs ≠ 0 := by simpa [toRat_eq_zero] using zero
    have digits_le : x.digits ≤ count ↔ |x.mantissa| < 10 ^ count := by
      rw [digits, Digits.length_ofNat natural, Nat.succ_le_iff,
        Nat.log_lt_iff_lt_pow (by norm_num) natural, Int.abs_eq_natAbs]
      exact_mod_cast Iff.rfl
    rw [digits_le]
    constructor
    · intro few
      exact ⟨x.mantissa, x.exponent, few, rfl⟩
    · rintro ⟨m, e, few, same⟩
      -- Its exponent is no smaller than that of any other way to write the number.
      have larger := h.exponent_le (y := ⟨m, e⟩) zero same
      have scale : (10 : ℚ) ^ e ≠ 0 := by positivity
      have aligned : x.mantissaAt e = m := by
        have product := (x.mantissaAt_mul larger).trans same
        exact_mod_cast mul_right_cancel₀ scale product
      have fewer : |x.mantissa| ≤ |m| := by
        rw [← aligned, mantissaAt, abs_mul]
        refine le_mul_of_one_le_right (abs_nonneg _) ?_
        exact_mod_cast Digits.tenTo_pos _
      exact fewer.trans_lt few

end Decimal

/-- The point of a mantissa may be moved if the exponent moves with it. -/
theorem Decimal.toRat_eq_scientific (mantissa exponent : ℤ) (places : ℕ) :
    (⟨mantissa, exponent⟩ : Decimal).toRat =
      mantissa / 10 ^ places * 10 ^ (exponent + places) := by
  rw [toRat, zpow_add₀ (by norm_num), zpow_natCast]
  field_simp

/-! ## Types -/

namespace Scalar

/-- The integers that the words of a width stand for in two's complement. -/
def signedWords (bits : ℕ) : Set ℤ := Set.range fun w : BitVec bits => w.toInt

/-- The natural numbers that the words of a width stand for. -/
def unsignedWords (bits : ℕ) : Set ℤ := Set.range fun w : BitVec bits => (w.toNat : ℤ)

/-- The integers that an integer type has words for. -/
def words? : Scalar → Option (Set ℤ)
  | i1 => some (signedWords 8)
  | i2 => some (signedWords 16)
  | i4 => some (signedWords 32)
  | i8 | ix => some (signedWords 64)
  | u1 => some (unsignedWords 8)
  | u2 => some (unsignedWords 16)
  | u4 => some (unsignedWords 32)
  | u8 | ux => some (unsignedWords 64)
  | f4 | f8 | rinf => none

/-- The significant digits that a float type keeps, and the absolute values other than zero between
which it has numbers. -/
structure FloatLimits where
  digits : ℕ
  least : ℚ
  greatest : ℚ

def limits? : Scalar → Option FloatLimits
  | f4 => some ⟨7, 1.4 * 10 ^ (-45 : ℤ), 3.4028235 * 10 ^ (38 : ℤ)⟩
  | f8 => some ⟨16, 4.9 * 10 ^ (-324 : ℤ), 1.7976931348623157 * 10 ^ (308 : ℤ)⟩
  | _ => none

theorem mem_signedWords {bits : ℕ} (pos : 0 < bits) (n : ℤ) :
    n ∈ signedWords bits ↔ -2 ^ (bits - 1) ≤ n ∧ n < 2 ^ (bits - 1) := by
  constructor
  · rintro ⟨w, rfl⟩
    exact ⟨w.le_toInt, w.toInt_lt⟩
  · rintro ⟨low, high⟩
    exact ⟨BitVec.ofInt bits n, BitVec.toInt_ofInt_eq_self pos low high⟩

theorem mem_unsignedWords (bits : ℕ) (n : ℤ) : n ∈ unsignedWords bits ↔ 0 ≤ n ∧ n < 2 ^ bits := by
  constructor
  · rintro ⟨w, rfl⟩
    have inside : (w.toNat : ℤ) < 2 ^ bits := by exact_mod_cast w.isLt
    exact ⟨Int.natCast_nonneg _, inside⟩
  · rintro ⟨low, high⟩
    obtain ⟨k, rfl⟩ := Int.eq_ofNat_of_zero_le low
    have inside : k < 2 ^ bits := by exact_mod_cast high
    exact ⟨BitVec.ofNatLT k inside, by simp⟩

theorem two_pow_le {bits : ℕ} (h : bits ≤ 64) : (2 : ℤ) ^ bits ≤ 10 ^ 20 :=
  (pow_le_pow_right₀ (by norm_num) h).trans (by norm_num)

theorem spans_signed {bits : ℕ} (pos : 0 < bits) (h : bits ≤ 64) :
    Format.Spans (-(Nat.pow 2 (bits - 1) : ℕ)) ((Nat.pow 2 (bits - 1) : ℕ) - 1)
      (signedWords bits) := by
  have bound : (2 : ℤ) ^ (bits - 1) ≤ 10 ^ 20 := two_pow_le (by omega)
  have half : ((Nat.pow 2 (bits - 1) : ℕ) : ℤ) = 2 ^ (bits - 1) := by simp
  rw [half]
  exact ⟨fun n => by rw [mem_signedWords pos]; omega, by omega, by omega⟩

theorem spans_unsigned {bits : ℕ} (h : bits ≤ 64) :
    Format.Spans 0 ((Nat.pow 2 bits : ℕ) - 1) (unsignedWords bits) := by
  have bound := two_pow_le h
  have count : ((Nat.pow 2 bits : ℕ) : ℤ) = 2 ^ bits := by simp
  rw [count]
  exact ⟨fun n => by rw [mem_unsignedWords]; omega, by omega, by omega⟩

variable {type : Scalar}

theorem format_of_words? {words : Set ℤ} (h : type.words? = some words) :
    ∃ least greatest, type.format = .integer least greatest ∧
      Format.Spans least greatest words := by
  cases type with
  | i1 | i2 | i4 | i8 | ix =>
    obtain rfl := Option.some.inj h
    exact ⟨_, _, rfl, spans_signed (by decide) (by decide)⟩
  | u1 | u2 | u4 | u8 | ux =>
    obtain rfl := Option.some.inj h
    exact ⟨_, _, rfl, spans_unsigned (by decide)⟩
  | f4 | f8 | rinf => contradiction

theorem format_of_limits? {limits : FloatLimits} (h : type.limits? = some limits) :
    ∃ low high, type.format = .float limits.digits low high ∧ 0 < limits.digits ∧
      low.toRat = limits.least ∧ high.toRat = limits.greatest := by
  cases type with
  | f4 =>
    obtain rfl := Option.some.inj h
    exact ⟨_, _, rfl, by decide, (Decimal.toRat_eq_scientific _ _ 1).trans (by norm_num),
      (Decimal.toRat_eq_scientific _ _ 7).trans (by norm_num)⟩
  | f8 =>
    obtain rfl := Option.some.inj h
    exact ⟨_, _, rfl, by decide, (Decimal.toRat_eq_scientific _ _ 1).trans (by norm_num),
      (Decimal.toRat_eq_scientific _ _ 16).trans (by norm_num)⟩
  | _ => contradiction

theorem misfit?_of_limits? {limits : FloatLimits} (h : type.limits? = some limits) (x : Decimal) :
    type.misfit? x =
      if x.toRat = 0 then none
      else if limits.digits < x.digits then some .tooPrecise
      else if limits.greatest < |x.toRat| ∨ |x.toRat| < limits.least then some .outOfRange
      else none := by
  obtain ⟨low, high, format, -, least, greatest⟩ := format_of_limits? h
  rw [misfit?, format, Format.misfit?_float, least, greatest]

/-- An integer type holds exactly the integers that it has words for; it tells numbers that are no
integers from integers it has no word for, and finds the same as if it wrote every integer out. A
float type holds exactly zero and the numbers with few enough digits within its limits; it refuses
more digits whatever the size of the number. A decimal in normal form has no more digits than its
number needs. No step overflows if a word can place the leading digit. -/
theorem misfit?_exact (type : Scalar) {x : Decimal} (normal : x.IsNormal) :
    (∀ words, type.words? = some words →
      (type.misfit? x = none ↔ ∃ n ∈ words, x.toRat = n) ∧
      (type.misfit? x = some .notIntegral ↔ ∀ n : ℤ, x.toRat ≠ n) ∧
      (type.misfit? x = some .outOfRange ↔ ∃ n ∉ words, x.toRat = n) ∧
      ∀ least greatest, type.format = .integer least greatest →
        type.misfit? x = Format.expandedMisfit? least greatest x) ∧
    (∀ limits, type.limits? = some limits →
      (type.misfit? x = none ↔ x.toRat = 0 ∨
        x.digits ≤ limits.digits ∧ limits.least ≤ |x.toRat| ∧ |x.toRat| ≤ limits.greatest) ∧
      (type.misfit? x = some .tooPrecise ↔ limits.digits < x.digits) ∧
      (type.misfit? x = some .outOfRange ↔ x.toRat ≠ 0 ∧ x.digits ≤ limits.digits ∧
        ¬ (limits.least ≤ |x.toRat| ∧ |x.toRat| ≤ limits.greatest)) ∧
      (x.digits ≤ limits.digits ↔ x.toRat ∈ (Rounding.significant limits.digits).grid)) ∧
    (Narrow.Placed x → Narrow.misfit? x type.format = .ok (type.misfit? x)) := by
  refine ⟨fun words h => ?_, fun limits h => ?_, fun placed => ?_⟩
  · obtain ⟨least, greatest, format, spans⟩ := format_of_words? h
    have expanded : type.misfit? x = Format.expandedMisfit? least greatest x := by
      rw [misfit?, format, Format.misfit?_eq_expandedMisfit? normal spans]
    rw [expanded]
    refine ⟨Format.expandedMisfit?_eq_none_iff normal spans,
      Format.expandedMisfit?_eq_notIntegral_iff normal least greatest,
      Format.expandedMisfit?_eq_outOfRange_iff normal spans, fun least' greatest' same => ?_⟩
    rw [format] at same
    cases same
    rfl
  · obtain ⟨-, -, -, pos, -⟩ := format_of_limits? h
    have zero_digits : x.toRat = 0 → x.digits ≤ limits.digits := fun zero =>
      (Decimal.digits_of_toRat_eq_zero zero).trans_le pos
    rw [misfit?_of_limits? h]
    refine ⟨?_, ?_, ?_, normal.digits_le_iff pos⟩ <;> grind
  · exact Narrow.misfit?_eq placed.leading_eq type

/-- The least byte, a power of ten that is never written out, and a number that has too many digits
for a float and is too large for it as well. -/
theorem misfit?_exact_bounds :
    (⟨-128, 0⟩ : Decimal).IsNormal ∧ (⟨1, 21⟩ : Decimal).IsNormal ∧
    (⟨12345678, 60⟩ : Decimal).IsNormal ∧
    i1.misfit? ⟨-128, 0⟩ = none ∧ (∃ n ∈ signedWords 8, (⟨-128, 0⟩ : Decimal).toRat = n) ∧
    u8.misfit? ⟨1, 21⟩ = some .outOfRange ∧
    (∃ n ∉ unsignedWords 64, (⟨1, 21⟩ : Decimal).toRat = n) ∧
    f4.misfit? ⟨12345678, 60⟩ = some .tooPrecise ∧ 7 < (⟨12345678, 60⟩ : Decimal).digits := by
  have least : (⟨-128, 0⟩ : Decimal).IsNormal := by decide
  have power : (⟨1, 21⟩ : Decimal).IsNormal := by decide
  have precise : (⟨12345678, 60⟩ : Decimal).IsNormal := by decide
  have held : i1.misfit? ⟨-128, 0⟩ = none := by decide
  have out : u8.misfit? ⟨1, 21⟩ = some .outOfRange := by decide
  obtain ⟨byte, -, -⟩ := misfit?_exact i1 least
  obtain ⟨word, -, -⟩ := misfit?_exact u8 power
  obtain ⟨-, float, -⟩ := misfit?_exact f4 precise
  have many : 7 < (⟨12345678, 60⟩ : Decimal).digits := by decide +kernel
  obtain ⟨-, tooPrecise, -⟩ := float _ rfl
  obtain ⟨holds, -⟩ := byte _ rfl
  obtain ⟨-, -, outside, -⟩ := word _ rfl
  exact ⟨least, power, precise, held, holds.1 held, out, outside.1 out, tooPrecise.2 many, many⟩

end Scalar

end ConstLang
