import ConstLang.Proofs.Scalar.Representation

/-!
# Binding numbers to types

To bind a decimal to a type is to round it, if the type rounds, and then to check whether the type
holds it. What a type holds it keeps as it is. A float type rounds to the nearest number with the
digits that it keeps, which has no digit too many even where the rounding carries into a new one; so
only the size of the rounded number can stand against it.
-/

namespace ConstLang

open Rational

namespace Decimal

variable {x : Decimal} {count : ℕ}

/-- A carry makes the number shorter, not longer. -/
theorem digits_round_le (pos : 0 < count) (x : Decimal) :
    (x.round (.significant count)).digits ≤ count := by
  by_cases few : x.digits ≤ count
  · rw [round, if_pos few]
    exact few
  · have normal : (x.round (.significant count)).IsNormal := by
      rw [round, if_neg few]
      exact isNormal_normal _ _
    rw [normal.digits_le_iff pos, toRat_round_significant]
    exact Rounding.toDigits_mem_grid pos x.toRat

theorem round_significant_eq_self_iff (pos : 0 < count) :
    x.round (.significant count) = x ↔ x.digits ≤ count := by
  constructor
  · intro same
    have few := digits_round_le pos x
    rwa [same] at few
  · intro few
    rw [round, if_pos few]

/-- A carry moves the leading digit by one place at most. -/
theorem leading_round_le (pos : 0 < count) (kept : (x.round (.significant count)).toRat ≠ 0) :
    (x.round (.significant count)).leading ≤ x.leading + 1 := by
  rw [← log_abs_toRat kept]
  rw [toRat_round_significant] at kept ⊢
  have nonzero : x.toRat ≠ 0 := by
    intro zero
    rw [zero] at kept
    exact kept (Rounding.apply_zero (.significant count))
  have below : |x.toRat| ≤ 10 ^ (x.leading + 1) := by
    refine ((log_lt_iff (abs_pos.2 nonzero)).1 ?_).le
    rw [log_abs_toRat nonzero]
    omega
  have places : toDigits count x.toRat = toPlaces (count - 1 - x.leading) x.toRat := by
    rw [toDigits, log_abs_toRat nonzero]
  rw [places] at kept ⊢
  have bound := abs_toPlaces_le (c := count - 1 - x.leading) (by omega) below
  by_contra larger
  have above := (le_log_iff (abs_pos.2 kept)).1 (not_le.1 larger)
  have power : (10 : ℚ) ^ (x.leading + 1) < 10 ^ (x.leading + 1 + 1) :=
    zpow_lt_zpow_right₀ (by norm_num) (by omega)
  exact absurd (above.trans bound) (not_le.2 power)

end Decimal

namespace Scalar

variable {type : Scalar} {limits : FloatLimits} {x y : Decimal}

/-- What a type makes of a decimal before it is checked. -/
def rounded (type : Scalar) (x : Decimal) : Decimal :=
  match type.format.storedRounding? with
  | some rounding => x.round rounding
  | none => x

theorem bind_eq (type : Scalar) (x : Decimal) :
    type.bind x =
      match type.misfit? (type.rounded x) with
      | some misfit => .error misfit
      | none => .ok (type.rounded x) := rfl

theorem bind_eq_ok_iff :
    type.bind x = .ok y ↔ y = type.rounded x ∧ type.misfit? (type.rounded x) = none := by
  rw [bind_eq]
  cases type.misfit? (type.rounded x) <;> simp [eq_comm]

theorem bind_eq_error_iff {misfit : Misfit} :
    type.bind x = .error misfit ↔ type.misfit? (type.rounded x) = some misfit := by
  rw [bind_eq]
  cases type.misfit? (type.rounded x) <;> simp

/-! ## Types that do not round -/

theorem rounded_of_limits?_eq_none (h : type.limits? = none) (x : Decimal) :
    type.rounded x = x := by
  cases type <;> first | rfl | contradiction

/-! ## Float types -/

theorem rounded_of_limits? (h : type.limits? = some limits) (x : Decimal) :
    type.rounded x = x.round (.significant limits.digits) := by
  obtain ⟨low, high, format, -⟩ := format_of_limits? h
  rw [rounded, format]
  rfl

theorem digits_pos_of_limits? (h : type.limits? = some limits) : 0 < limits.digits := by
  obtain ⟨-, -, -, pos, -⟩ := format_of_limits? h
  exact pos

theorem rounded_eq_self_iff (h : type.limits? = some limits) :
    type.rounded x = x ↔ x.digits ≤ limits.digits := by
  rw [rounded_of_limits? h, Decimal.round_significant_eq_self_iff (digits_pos_of_limits? h)]

/-- Only its size stands against a number that was rounded. -/
theorem misfit?_rounded (h : type.limits? = some limits) (x : Decimal) :
    type.misfit? (type.rounded x) =
      if (type.rounded x).toRat ≠ 0 ∧ (|(type.rounded x).toRat| < limits.least ∨
        limits.greatest < |(type.rounded x).toRat|) then some .outOfRange else none := by
  have few : (type.rounded x).digits ≤ limits.digits := by
    rw [rounded_of_limits? h]
    exact Decimal.digits_round_le (digits_pos_of_limits? h) x
  rw [misfit?_of_limits? h]
  grind

theorem exists_digits_of_storedRounding? {rounding : Rounding}
    (h : type.format.storedRounding? = some rounding) :
    ∃ count, rounding = .significant count ∧ 0 < count ∧ count ≤ 2 ^ 63 := by
  cases type <;>
    first | contradiction | (obtain rfl := Option.some.inj h; exact ⟨_, rfl, by decide, by decide⟩)

/-! ## All types -/

/-- A type that holds a decimal leaves it as it is. -/
theorem rounded_of_misfit? (h : type.misfit? x = none) : type.rounded x = x := by
  cases kind : type.limits? with
  | none => exact rounded_of_limits?_eq_none kind x
  | some limits =>
    rw [rounded_eq_self_iff kind]
    have pos := digits_pos_of_limits? kind
    rw [misfit?_of_limits? kind] at h
    by_cases zero : x.toRat = 0
    · exact (Decimal.digits_of_toRat_eq_zero zero).trans_le pos
    · grind

theorem bind_eq_self_iff : type.bind x = .ok x ↔ type.misfit? x = none := by
  rw [bind_eq_ok_iff]
  constructor
  · rintro ⟨same, fits⟩
    rwa [← same] at fits
  · intro fits
    have same := rounded_of_misfit? fits
    exact ⟨same.symm, by rwa [same]⟩

/-- A decimal is changed if it has more digits than its type keeps. -/
theorem ne_iff_of_bind (h : type.bind x = .ok y) :
    y ≠ x ↔ ∃ limits, type.limits? = some limits ∧ limits.digits < x.digits := by
  obtain ⟨rfl, -⟩ := bind_eq_ok_iff.1 h
  cases kind : type.limits? with
  | none => simp [rounded_of_limits?_eq_none kind]
  | some limits => simp [rounded_eq_self_iff kind]

/-- A float type finds the nearest number that has the digits it keeps, and refuses it by its size
alone. -/
theorem nearest_bind (h : type.limits? = some limits) (x : Decimal) :
    ∃ q, (∀ r, Nearest (Rounding.significant limits.digits).grid x.toRat r ↔ r = q) ∧
      (∀ y, type.bind x = .ok y → y.toRat = q) ∧
      (∀ misfit, type.bind x = .error misfit → misfit = .outOfRange) ∧
      ((∃ misfit, type.bind x = .error misfit) ↔
        q ≠ 0 ∧ (|q| < limits.least ∨ limits.greatest < |q|)) := by
  have nearest := Rounding.nearest_toDigits (digits_pos_of_limits? h) x.toRat
  have value : (type.rounded x).toRat = toDigits limits.digits x.toRat := by
    rw [rounded_of_limits? h, Decimal.toRat_round_significant]
  rw [← value] at nearest
  refine ⟨(type.rounded x).toRat, fun r => ⟨fun other => ?_, fun same => same ▸ nearest⟩,
    fun y bound => ?_, fun misfit refused => ?_, ?_⟩
  · exact other.unique (Rounding.zero_mem_grid _) nearest
  · rw [(bind_eq_ok_iff.1 bound).1]
  · rw [bind_eq_error_iff, misfit?_rounded h] at refused
    grind
  · simp only [bind_eq_error_iff, misfit?_rounded h]
    split
    next unfit => simpa using unfit
    next fit => simpa using fit

end Scalar

/-! ## Words -/

namespace Narrow

/-- A signed 64-bit word holds the exponent of a decimal and counts its digits, and the leading one
may still move up by a place. -/
structure Spare (x : Decimal) : Prop where
  few : x.digits ≤ 2 ^ 63
  low : -2 ^ 63 ≤ x.exponent
  high : x.leading + 1 < 2 ^ 63

variable {x : Decimal} {count : ℕ}

theorem Spare.placed (h : Spare x) : Placed x where
  few := h.few
  low := h.low.trans x.exponent_le_leading
  high := by linarith [h.high]

/-- The last place only moves up when digits are dropped, and the leading one by a place at most. -/
theorem Spare.round (h : Spare x) (pos : 0 < count) (small : count ≤ 2 ^ 63) :
    Narrow.round x (.significant count) = .ok (x.round (.significant count)) ∧
      Placed (x.round (.significant count)) := by
  by_cases fits : x.digits ≤ count
  · rw [Narrow.round, Decimal.round, if_pos fits, if_pos fits]
    exact ⟨rfl, h.placed⟩
  · obtain ⟨-, low, high⟩ := h
    have span : x.leading = x.digits - 1 + x.exponent := rfl
    have digits := Decimal.digits_round_le pos x
    have carry := Decimal.leading_round_le (x := x) pos
    rw [Decimal.round, if_neg fits] at digits carry ⊢
    rw [Narrow.round, if_neg fits]
    dsimp only at digits carry ⊢
    rw [word_eq (by omega) (by omega), ok_bind]
    generalize mantissa : Decimal.dropDigits x.mantissa (x.digits - count) = m at *
    generalize place : x.exponent + (x.digits - count : ℕ) = e at *
    have normal := Decimal.isNormal_normal m e
    have bounds : -2 ^ 63 ≤ (Decimal.normal m e).exponent ∧
        (Decimal.normal m e).leading < 2 ^ 63 := by
      by_cases zero : (Decimal.normal m e).toRat = 0
      · rw [normal.eq_zero zero]
        decide
      · have last : e ≤ _ := normal.exponent_le (y := ⟨m, e⟩) zero (Decimal.toRat_normal m e)
        have first := carry zero
        omega
    have ordered := (Decimal.normal m e).exponent_le_leading
    exact ⟨normal_eq bounds.1 (by omega), digits.trans small, by omega, bounds.2⟩

theorem Spare.bind_eq (h : Spare x) (type : Scalar) : bind type x = .ok (type.bind x) := by
  unfold bind Scalar.bind
  cases rounds : type.format.storedRounding? with
  | none =>
    dsimp only
    rw [ok_bind, misfit?_eq h.placed.leading_eq, ok_bind]
    cases type.misfit? x <;> rfl
  | some rounding =>
    obtain ⟨count, rfl, pos, small⟩ := Scalar.exists_digits_of_storedRounding? rounds
    obtain ⟨rounded, placed⟩ := h.round pos small
    dsimp only
    rw [rounded, ok_bind, misfit?_eq placed.leading_eq, ok_bind]
    cases type.misfit? (x.round (.significant count)) <;> rfl

end Narrow
end ConstLang
