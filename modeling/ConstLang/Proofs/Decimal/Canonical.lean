import ConstLang.Decimal.Text
import ConstLang.Proofs.Decimal.Rounding

/-!
# One decimal for each number

Every operation returns a decimal in normal form, and a number has only one decimal in that form.
So decimals that were made by operations are equal exactly if they are the same number, and the
exact operations on them obey the laws of a commutative ring.
-/

namespace ConstLang

open Digits

namespace Decimal

variable {x y z : Decimal}

/-! ## Normal forms -/

/-- Only zero has a mantissa that ends in a zero, and its exponent is zero. -/
theorem isNormal_iff : x.IsNormal ↔ (10 ∣ x.mantissa → x = 0) := by
  obtain ⟨m, e⟩ := x
  change (if m = 0 then e = 0 else m % 10 ≠ 0) ↔ (10 ∣ m → (⟨m, e⟩ : Decimal) = ⟨0, 0⟩)
  rw [Decimal.mk.injEq, Int.dvd_iff_emod_eq_zero]
  split
  · next zero => simp [zero]
  · next nonzero => simp [nonzero]

theorem isNormal_zero : (0 : Decimal).IsNormal := isNormal_iff.2 fun _ => rfl

theorem IsNormal.neg (h : x.IsNormal) : (-x).IsNormal := by
  rw [isNormal_iff] at h ⊢
  intro zeros
  rw [h (Int.dvd_neg.1 zeros)]
  rfl

theorem IsNormal.abs (h : x.IsNormal) : x.abs.IsNormal := by
  rw [isNormal_iff] at h ⊢
  intro zeros
  rw [h (Int.dvd_natAbs.1 zeros)]
  rfl

theorem IsNormal.round (h : x.IsNormal) (rounding : Rounding) : (x.round rounding).IsNormal := by
  cases rounding with
  | places count =>
    rw [Decimal.round]
    split
    · exact h
    · exact isNormal_normal _ _
  | significant count =>
    rw [Decimal.round]
    split
    · exact h
    · exact isNormal_normal _ _

theorem isNormal_div? {rounding : Rounding} (h : x.div? y rounding = some z) : z.IsNormal := by
  unfold div? at h
  split at h
  · contradiction
  · split at h
    · obtain rfl := Option.some.inj h
      exact isNormal_zero
    · obtain rfl := Option.some.inj h
      exact (isNormal_normal _ _).round rounding

theorem isNormal_rem? (h : x.rem? y = some z) : z.IsNormal := by
  unfold rem? at h
  split at h
  · contradiction
  · obtain rfl := Option.some.inj h
    exact isNormal_normal _ _

theorem isNormal_ofDigits {whole fraction : String} {exponent : Option (Bool × String)}
    (h : ofDigits whole fraction exponent = some x) : x.IsNormal := by
  unfold ofDigits at h
  split at h
  · dsimp only at h
    split at h
    · obtain rfl := Option.some.inj h
      exact isNormal_normal _ _
    · contradiction
  · contradiction

theorem isNormal_read {text : String} (h : read text = .ok x) : x.IsNormal := by
  unfold read at h
  dsimp only at h
  split at h
  · contradiction
  · split at h
    · contradiction
    · next made =>
      obtain rfl := Except.ok.inj h
      split
      · exact (isNormal_ofDigits made).neg
      · exact isNormal_ofDigits made

/-! ## A number has one normal form -/

/-- Of the decimals that are one number, the one in normal form has the largest exponent. -/
theorem IsNormal.exponent_le (h : x.IsNormal) (nonzero : x.toRat ≠ 0) (same : x.toRat = y.toRat) :
    y.exponent ≤ x.exponent := by
  by_contra larger
  have scale : (10 : ℚ) ^ x.exponent ≠ 0 := by positivity
  have mantissa : x.mantissa = y.mantissaAt x.exponent := by
    have aligned := (y.mantissaAt_mul (e := x.exponent) (by omega)).trans same.symm
    exact_mod_cast (mul_right_cancel₀ scale aligned).symm
  -- Brought down to the exponent of `x`, the mantissa of `y` gets a zero, and it is that of `x`.
  obtain ⟨gap, hgap⟩ : ∃ gap, (y.exponent - x.exponent).toNat = gap + 1 :=
    ⟨(y.exponent - x.exponent).toNat - 1, by omega⟩
  have zeros : 10 ∣ x.mantissa := by
    rw [mantissa, mantissaAt, hgap, tenTo_add, Int.natCast_mul]
    exact Int.dvd_mul_of_dvd_right (Int.dvd_mul_left _ _)
  exact nonzero (by rw [isNormal_iff.1 h zeros, toRat_zero])

theorem IsNormal.eq_zero (h : x.IsNormal) (zero : x.toRat = 0) : x = 0 :=
  isNormal_iff.1 h (toRat_eq_zero.1 zero ▸ dvd_zero 10)

theorem IsNormal.eq_of_toRat_eq (hx : x.IsNormal) (hy : y.IsNormal) (same : x.toRat = y.toRat) :
    x = y := by
  by_cases zero : x.toRat = 0
  · rw [hx.eq_zero zero, hy.eq_zero (same ▸ zero)]
  · have exponent : x.exponent = y.exponent :=
      le_antisymm (hy.exponent_le (same ▸ zero) same.symm) (hx.exponent_le zero same)
    have scale : (10 : ℚ) ^ y.exponent ≠ 0 := by positivity
    have mantissa : x.mantissa = y.mantissa := by
      rw [toRat, toRat, exponent] at same
      exact_mod_cast mul_right_cancel₀ scale same
    obtain ⟨m, e⟩ := x
    obtain rfl : m = y.mantissa := mantissa
    obtain rfl : e = y.exponent := exponent
    rfl

/-! ## What the operations make -/

@[simp] theorem toRat_ofInt (n : ℤ) : (ofInt n).toRat = n := by
  rw [ofInt, toRat_normal, zpow_zero, mul_one]

/-- The decimals that operations make, in any number of steps. -/
inductive Made : Decimal → Prop
  | normal (mantissa exponent : ℤ) : Made (normal mantissa exponent)
  | zero : Made 0
  | ofInt (n : ℤ) : Made (ofInt n)
  | ofDigits {whole fraction : String} {exponent : Option (Bool × String)} {x : Decimal} :
      ofDigits whole fraction exponent = some x → Made x
  | read {text : String} {x : Decimal} : read text = .ok x → Made x
  | add {x y : Decimal} : Made x → Made y → Made (x + y)
  | sub {x y : Decimal} : Made x → Made y → Made (x - y)
  | mul {x y : Decimal} : Made x → Made y → Made (x * y)
  | neg {x : Decimal} : Made x → Made (-x)
  | abs {x : Decimal} : Made x → Made x.abs
  | round {x : Decimal} (rounding : Rounding) : Made x → Made (x.round rounding)
  | div {x y z : Decimal} {rounding : Rounding} :
      Made x → Made y → x.div? y rounding = some z → Made z
  | rem {x y z : Decimal} : Made x → Made y → x.rem? y = some z → Made z

theorem Made.isNormal (h : Made x) : x.IsNormal := by
  induction h with
  | normal mantissa exponent => exact isNormal_normal _ _
  | zero => exact isNormal_zero
  | ofInt n => exact isNormal_normal _ _
  | ofDigits made => exact isNormal_ofDigits made
  | read made => exact isNormal_read made
  | add | sub | mul => exact isNormal_normal _ _
  | neg _ ih => exact ih.neg
  | abs _ ih => exact ih.abs
  | round rounding _ ih => exact ih.round rounding
  | div _ _ made => exact isNormal_div? made
  | rem _ _ made => exact isNormal_rem? made

/-- Decimals that operations made are equal if they are the same number. -/
theorem Made.eq (hx : Made x) (hy : Made y) (same : x.toRat = y.toRat) : x = y :=
  hx.isNormal.eq_of_toRat_eq hy.isNormal same

/-- What operations make is in normal form, so equality is that of the numbers. The exact
operations are those of the numbers, and obey the laws of a commutative ring. -/
theorem canonical_of_made (hx : Made x) (hy : Made y) (hz : Made z) :
    ((10 ∣ x.mantissa → x.toRat = 0) ∧ (x.toRat = 0 → x.exponent = 0)) ∧
    (x = y ↔ x.toRat = y.toRat) ∧
    ((x + y).toRat = x.toRat + y.toRat ∧ (x - y).toRat = x.toRat - y.toRat ∧
      (x * y).toRat = x.toRat * y.toRat ∧ (-x).toRat = -x.toRat) ∧
    (x + y = y + x ∧ x + y + z = x + (y + z) ∧ x + 0 = x ∧ x + -x = 0 ∧ x - y = x + -y) ∧
    (x * y = y * x ∧ x * y * z = x * (y * z) ∧ x * ofInt 1 = x ∧
      x * (y + z) = x * y + x * z) := by
  have normal := isNormal_iff.1 hx.isNormal
  refine ⟨⟨fun zeros => by rw [normal zeros, toRat_zero], fun zero => ?_⟩,
    ⟨fun same => by rw [same], hx.eq hy⟩,
    ⟨toRat_add x y, toRat_sub x y, toRat_mul x y, toRat_neg x⟩,
    ⟨?_, ?_, ?_, ?_, ?_⟩, ?_, ?_, ?_, ?_⟩
  · rw [normal (toRat_eq_zero.1 zero ▸ dvd_zero 10)]
    rfl
  · exact (hx.add hy).eq (hy.add hx) (by simp [add_comm])
  · exact ((hx.add hy).add hz).eq (hx.add (hy.add hz)) (by simp [add_assoc])
  · exact (hx.add .zero).eq hx (by simp)
  · exact (hx.add hx.neg).eq .zero (by simp)
  · exact (hx.sub hy).eq (hx.add hy.neg) (by simp [sub_eq_add_neg])
  · exact (hx.mul hy).eq (hy.mul hx) (by simp [mul_comm])
  · exact ((hx.mul hy).mul hz).eq (hx.mul (hy.mul hz)) (by simp [mul_assoc])
  · exact (hx.mul (.ofInt 1)).eq hx (by simp)
  · exact (hx.mul (hy.add hz)).eq ((hx.mul hy).add (hx.mul hz)) (by simp [mul_add])

/-- `1.50`, `100` and `2 / 3` to seven digits. -/
theorem canonical_of_made_thirds :
    Made ⟨15, -1⟩ ∧ Made ⟨1, 2⟩ ∧ Made ⟨6666667, -7⟩ ∧
    ((⟨15, -1⟩ : Decimal) = ⟨1, 2⟩ ↔ (⟨15, -1⟩ : Decimal).toRat = (⟨1, 2⟩ : Decimal).toRat) ∧
    (⟨15, -1⟩ * (⟨1, 2⟩ + ⟨6666667, -7⟩) : Decimal) =
      ⟨15, -1⟩ * ⟨1, 2⟩ + ⟨15, -1⟩ * ⟨6666667, -7⟩ := by
  have read_half : read "1.50" = .ok ⟨15, -1⟩ := by decide +kernel
  have hundred : ofDigits "100" "" none = some ⟨1, 2⟩ := by decide +kernel
  have thirds : (ofInt 2).div? (ofInt 3) (.significant 7) = some ⟨6666667, -7⟩ := by
    decide +kernel
  have hx : Made ⟨15, -1⟩ := .read read_half
  have hy : Made ⟨1, 2⟩ := .ofDigits hundred
  have hz : Made ⟨6666667, -7⟩ := .div (.ofInt 2) (.ofInt 3) thirds
  obtain ⟨-, equal, -, -, -, -, -, distributes⟩ := canonical_of_made hx hy hz
  exact ⟨hx, hy, hz, equal, distributes⟩

end Decimal

end ConstLang
