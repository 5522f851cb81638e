import Mathlib.Algebra.Order.Field.Power
import Mathlib.Data.Int.Log
import Mathlib.Data.Rat.Floor
import Mathlib.Tactic.FieldSimp
import Mathlib.Tactic.Linarith
import Mathlib.Tactic.Positivity
import Mathlib.Tactic.Ring

/-!
# Rounding rational numbers

The rounding rules that the arithmetic of constants follows, on rational numbers: cutting toward
zero, and rounding to the nearest point of a decimal grid, a tie going away from zero.

The main statement is `nearest_cut_div`: a number that was cut one binary place or more past the
grid still rounds to the same point.
-/

namespace ConstLang.Rational

/-- The integer next to `q` on the side of zero. -/
def cut (q : ℚ) : ℤ := if 0 ≤ q then ⌊q⌋ else ⌈q⌉

/-- The integer nearest to `q`, a tie going away from zero. -/
def nearest (q : ℚ) : ℤ := if 0 ≤ q then ⌊q + 1 / 2⌋ else ⌈q - 1 / 2⌉

/-- The nearest number with so many decimal places, which may be negative. -/
def toPlaces (places : ℤ) (q : ℚ) : ℚ := nearest (q * 10 ^ places) / 10 ^ places

/-- The nearest number with so many significant digits. -/
def toDigits (count : ℕ) (q : ℚ) : ℚ := toPlaces (count - 1 - Int.log 10 |q|) q

/-! ## Cutting -/

theorem cut_of_nonneg {q : ℚ} (h : 0 ≤ q) : cut q = ⌊q⌋ := if_pos h

theorem cut_neg (q : ℚ) : cut (-q) = -cut q := by
  unfold cut
  rcases lt_trichotomy q 0 with h | rfl | h
  · rw [if_pos (by linarith), if_neg (by linarith), Int.floor_neg]
  · simp
  · rw [if_neg (by linarith), if_pos h.le, Int.ceil_neg]

theorem cut_nonneg {q : ℚ} (h : 0 ≤ q) : 0 ≤ cut q := by
  rw [cut_of_nonneg h]
  exact Int.floor_nonneg.2 h

/-- Division of integers that cuts is division of rationals that is cut. -/
theorem cut_intCast_div (a b : ℤ) : cut (a / b : ℚ) = a.tdiv b := by
  have natural (m n : ℕ) : cut ((m : ℤ) / (n : ℤ) : ℚ) = (m : ℤ).tdiv n := by
    rw [cut_of_nonneg (by positivity), Int.tdiv_eq_ediv_of_nonneg (by positivity)]
    exact Rat.floor_intCast_div_natCast m n
  obtain ⟨m, rfl | rfl⟩ := a.eq_nat_or_neg <;> obtain ⟨n, rfl | rfl⟩ := b.eq_nat_or_neg
  · exact natural m n
  · rw [Int.cast_neg, div_neg, cut_neg, natural, Int.tdiv_neg]
  · rw [Int.cast_neg, neg_div, cut_neg, natural, Int.neg_tdiv]
  · rw [Int.cast_neg, Int.cast_neg, neg_div_neg_eq, natural, Int.tdiv_neg, Int.neg_tdiv, neg_neg]

/-! ## The nearest integer -/

theorem nearest_of_nonneg {q : ℚ} (h : 0 ≤ q) : nearest q = ⌊q + 1 / 2⌋ := if_pos h

theorem nearest_neg (q : ℚ) : nearest (-q) = -nearest q := by
  unfold nearest
  rcases lt_trichotomy q 0 with h | rfl | h
  · rw [if_pos (by linarith), if_neg (by linarith), ← Int.floor_neg]
    congr 1
    ring
  · norm_num
  · rw [if_neg (by linarith), if_pos h.le, ← Int.ceil_neg]
    congr 1
    ring

theorem nearest_intCast (n : ℤ) : nearest n = n := by
  unfold nearest
  split
  · rw [Int.floor_intCast_add]
    norm_num
  · rw [sub_eq_add_neg, Int.ceil_intCast_add]
    norm_num

/-- Rounding a quotient of integers by the remainder of the division that cuts: it goes away from
zero if the remainder is half of the divisor or more. -/
theorem nearest_intCast_div (n : ℤ) {u : ℕ} (pos : 0 < u) :
    nearest (n / u : ℚ) =
      if u ≤ 2 * (n.tmod u).natAbs then n.tdiv u + n.sign else n.tdiv u := by
  have natural (m : ℕ) : nearest ((m : ℤ) / u : ℚ) =
      if u ≤ 2 * ((m : ℤ).tmod u).natAbs then (m : ℤ).tdiv u + (m : ℤ).sign
      else (m : ℤ).tdiv u := by
    have hu : (0 : ℚ) < u := by exact_mod_cast pos
    have hm : (m : ℚ) = u * (m / u : ℕ) + (m % u : ℕ) := by
      exact_mod_cast (Nat.div_add_mod m u).symm
    have small : ((m % u : ℕ) : ℚ) < u := by exact_mod_cast Nat.mod_lt m pos
    have quotient : ((m : ℤ) / u : ℚ) = (m / u : ℕ) + (m % u : ℕ) / u := by
      rw [Int.cast_natCast]
      field_simp
      linarith
    rw [nearest_of_nonneg (by positivity), quotient, ← Int.ofNat_tdiv, ← Int.ofNat_tmod,
      Int.natAbs_natCast, add_assoc, Int.floor_natCast_add]
    split
    · next half =>
      have hr : 0 < m % u := by omega
      have hs : (m : ℤ).sign = 1 := Int.sign_eq_one_of_pos (by have := Nat.mod_le m u; omega)
      have half : (u : ℚ) ≤ 2 * (m % u : ℕ) := by exact_mod_cast half
      rw [hs, Int.floor_eq_iff.2 ⟨?_, ?_⟩]
      · rw [Int.cast_one, ← sub_le_iff_le_add, le_div_iff₀ hu]
        linarith
      · have := (div_lt_one hu).2 small
        push_cast
        linarith
    · next less =>
      have less : (2 * (m % u : ℕ) : ℚ) < u := by exact_mod_cast not_le.1 less
      rw [Int.floor_eq_iff.2 ⟨?_, ?_⟩, add_zero]
      · positivity
      · rw [Int.cast_zero, ← lt_sub_iff_add_lt, div_lt_iff₀ hu]
        linarith
  obtain ⟨m, rfl | rfl⟩ := n.eq_nat_or_neg
  · exact natural m
  · rw [Int.cast_neg, neg_div, nearest_neg, natural, Int.neg_tmod, Int.neg_tdiv, Int.natAbs_neg,
      Int.sign_neg]
    split <;> ring

/-- A number that was cut past the grid still rounds to the same point: a tie is itself on the
finer grid. -/
theorem nearest_cut_div (q : ℚ) {u : ℕ} (even : 2 ∣ u) (pos : 0 < u) :
    nearest (cut (q * u) / u) = nearest q := by
  obtain ⟨v, rfl⟩ := even
  have hv : (0 : ℚ) < v := by exact_mod_cast Nat.pos_of_mul_pos_left pos
  have nonneg {q : ℚ} (h : 0 ≤ q) :
      nearest (cut (q * (2 * v : ℕ)) / (2 * v : ℕ)) = nearest q := by
    have hq : 0 ≤ q * (2 * v : ℕ) := by positivity
    have hc : (0 : ℚ) ≤ cut (q * (2 * v : ℕ)) := by exact_mod_cast cut_nonneg hq
    have shift : (cut (q * (2 * v : ℕ)) / (2 * v : ℕ) + 1 / 2 : ℚ) =
        (⌊q * (2 * v : ℕ) + v⌋ : ℤ) / (2 * v : ℕ) := by
      rw [cut_of_nonneg hq, Int.floor_add_natCast]
      push_cast
      field_simp
    rw [nearest_of_nonneg (by positivity), nearest_of_nonneg h, shift, Int.floor_div_natCast,
      Int.floor_intCast, ← Int.floor_div_natCast]
    congr 1
    push_cast
    field_simp
  rcases le_total 0 q with h | h
  · exact nonneg h
  · have := nonneg (neg_nonneg.2 h)
    rw [neg_mul, cut_neg, Int.cast_neg, neg_div, nearest_neg, nearest_neg] at this
    exact neg_inj.1 this

/-! ## Decimal grids -/

theorem toPlaces_of_intCast {places : ℤ} {q : ℚ} {n : ℤ} (h : q * 10 ^ places = n) :
    toPlaces places q = q := by
  have : (10 : ℚ) ^ places ≠ 0 := by positivity
  rw [toPlaces, h, nearest_intCast, ← h]
  field_simp

/-- Rounding to a number of places does not change if the number is cut to more places first. -/
theorem toPlaces_cut {places finer : ℤ} (h : places < finer) (q : ℚ) :
    toPlaces places (cut (q * 10 ^ finer) / 10 ^ finer) = toPlaces places q := by
  obtain ⟨k, rfl⟩ : ∃ k : ℕ, finer = places + (k + 1 : ℕ) := ⟨(finer - places - 1).toNat, by omega⟩
  have split : (10 : ℚ) ^ (places + (k + 1 : ℕ)) = 10 ^ places * (10 ^ (k + 1) : ℕ) := by
    rw [zpow_add₀ (by norm_num), zpow_natCast, Nat.cast_pow, Nat.cast_ofNat]
  have even : 2 ∣ 10 ^ (k + 1) := Dvd.dvd.trans (by norm_num) (dvd_pow_self 10 k.succ_ne_zero)
  have nonzero : (10 : ℚ) ^ places ≠ 0 := by positivity
  unfold toPlaces
  rw [← nearest_cut_div (q * 10 ^ places) even (by positivity), split, mul_assoc]
  congr 3
  field_simp

theorem abs_cut (q : ℚ) : |(cut q : ℚ)| = ⌊|q|⌋ := by
  have nonneg {q : ℚ} (h : 0 ≤ q) : |(cut q : ℚ)| = ⌊|q|⌋ := by
    rw [abs_of_nonneg h, ← cut_of_nonneg h]
    exact abs_of_nonneg (by exact_mod_cast cut_nonneg h)
  rcases le_total 0 q with h | h
  · exact nonneg h
  · simpa [cut_neg] using nonneg (neg_nonneg.2 h)

/-- Cutting keeps the leading digit where it is, if it is not cut off. -/
theorem log_cut {places : ℤ} {q : ℚ} (h : 0 ≤ places + Int.log 10 |q|) (nonzero : q ≠ 0) :
    Int.log 10 |(cut (q * 10 ^ places) / 10 ^ places : ℚ)| = Int.log 10 |q| := by
  have pos : (0 : ℚ) < 10 ^ places := by positivity
  have size : |(cut (q * 10 ^ places) / 10 ^ places : ℚ)| = ⌊|q| * 10 ^ places⌋ / 10 ^ places := by
    rw [abs_div, abs_cut, abs_mul, abs_of_pos pos]
  have lower : (10 : ℚ) ^ Int.log 10 |q| ≤ ⌊|q| * 10 ^ places⌋ / 10 ^ places := by
    obtain ⟨k, hk⟩ := Int.eq_ofNat_of_zero_le h
    rw [le_div_iff₀ pos, ← zpow_add₀ (by norm_num), add_comm, hk, zpow_natCast]
    have : ((10 ^ k : ℕ) : ℚ) ≤ |q| * 10 ^ places := by
      rw [Nat.cast_pow, Nat.cast_ofNat, ← zpow_natCast, ← hk, zpow_add₀ (by norm_num), mul_comm]
      exact mul_le_mul_of_nonneg_right
        (by exact_mod_cast Int.zpow_log_le_self (by norm_num) (abs_pos.2 nonzero)) pos.le
    exact_mod_cast Int.le_floor.2 (by exact_mod_cast this)
  have upper : (⌊|q| * 10 ^ places⌋ / 10 ^ places : ℚ) ≤ |q| := by
    rw [div_le_iff₀ pos]
    exact Int.floor_le _
  rw [size]
  refine le_antisymm (Int.log_mono_right (lower.trans_lt' (by positivity)) upper) ?_
  exact (Int.zpow_le_iff_le_log (by norm_num) (lower.trans_lt' (by positivity))).1
    (by exact_mod_cast lower)

/-- Rounding to a number of digits does not change if the number is cut to more digits first. -/
theorem toDigits_cut {count : ℕ} {places : ℤ} {q : ℚ} (pos : 0 < count)
    (h : count ≤ places + Int.log 10 |q|) (nonzero : q ≠ 0) :
    toDigits count (cut (q * 10 ^ places) / 10 ^ places) = toDigits count q := by
  unfold toDigits
  rw [log_cut (by omega) nonzero, toPlaces_cut (by omega)]

end ConstLang.Rational
