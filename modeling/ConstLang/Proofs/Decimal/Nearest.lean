import ConstLang.Proofs.Decimal.Canonical

/-!
# The nearest decimal

Rounding a number finds the point of a grid that is nearest to it, and of two that are equally near
the one farther from zero. There is only one such point, so that `Rational.Nearest` says which
decimal a rounding or a quotient has to find without saying how.
-/

namespace ConstLang

namespace Rational

/-- The point `r` of a grid is nearest to `q`, and no point that is as near is farther from zero. -/
structure Nearest (grid : Set ℚ) (q r : ℚ) : Prop where
  mem : r ∈ grid
  closest : ∀ s ∈ grid, |q - r| ≤ |q - s|
  away : ∀ s ∈ grid, |q - s| = |q - r| → |s| ≤ |r|

namespace Nearest

variable {grid : Set ℚ} {q r s : ℚ}

/-- Two nearest points are as far from zero as each other. They could only lie on both sides of it,
and then zero itself would be nearer. -/
theorem unique (zero : 0 ∈ grid) (hr : Nearest grid q r) (hs : Nearest grid q s) : r = s := by
  have near : |q - r| = |q - s| := le_antisymm (hr.closest s hs.mem) (hs.closest r hr.mem)
  have size : |r| = |s| := le_antisymm (hs.away r hr.mem near) (hr.away s hs.mem near.symm)
  rcases abs_eq_abs.1 size with same | rfl
  · exact same
  · have middle : q = 0 ∨ s = 0 := by
      rcases abs_eq_abs.1 near with h | h
      · exact .inr (by linarith)
      · exact .inl (by linarith)
    rcases middle with rfl | rfl
    · have nearer := hs.closest 0 zero
      rw [sub_zero, abs_zero, abs_nonpos_iff, zero_sub, neg_eq_zero] at nearer
      rw [nearer, neg_zero]
    · exact neg_zero

/-- A point of the grid is nearest to itself. -/
theorem self (h : q ∈ grid) : Nearest grid q q where
  mem := h
  closest s _ := by simp
  away s _ same := by
    rw [sub_self, abs_zero, abs_eq_zero, sub_eq_zero] at same
    rw [same]

theorem neg (symmetric : ∀ s ∈ grid, -s ∈ grid) (h : Nearest grid q r) :
    Nearest grid (-q) (-r) := by
  have mirrored (s : ℚ) : |-q - s| = |q - -s| := by
    rw [← abs_neg, neg_sub', neg_neg]
  refine ⟨symmetric r h.mem, fun s hs => ?_, fun s hs same => ?_⟩
  · rw [mirrored, mirrored, neg_neg]
    exact h.closest (-s) (symmetric s hs)
  · rw [mirrored, mirrored, neg_neg] at same
    rw [abs_neg, ← abs_neg s]
    exact h.away (-s) (symmetric s hs) same

/-- Scaling a number and the grid scales the nearest point. -/
theorem div {c : ℚ} (pos : 0 < c) (h : Nearest grid (q * c) r) :
    Nearest ((· / c) '' grid) q (r / c) := by
  have scaled (s : ℚ) : |q - s / c| = |q * c - s| / c := by
    rw [← abs_of_pos pos, ← abs_div, abs_of_pos pos, sub_div, mul_div_cancel_right₀ q pos.ne']
  refine ⟨⟨r, h.mem, rfl⟩, ?_, ?_⟩
  · rintro _ ⟨s, hs, rfl⟩
    dsimp only
    rw [scaled, scaled]
    exact div_le_div_of_nonneg_right (h.closest s hs) pos.le
  · rintro _ ⟨s, hs, rfl⟩ same
    dsimp only at same ⊢
    rw [scaled, scaled, div_left_inj' pos.ne'] at same
    rw [abs_div, abs_div]
    exact div_le_div_of_nonneg_right (h.away s hs same) (abs_nonneg c)

end Nearest

/-! ## Rounding to a grid -/

/-- The integers. -/
def integers : Set ℚ := Set.range Int.cast

theorem nearest_integers_of_nonneg {q : ℚ} (h : 0 ≤ q) : Nearest integers q (nearest q) := by
  obtain ⟨m, hm⟩ : ∃ m, m = ⌊q + 1 / 2⌋ := ⟨_, rfl⟩
  have lower : (m : ℚ) ≤ q + 1 / 2 := hm ▸ Int.floor_le _
  have upper : q + 1 / 2 < m + 1 := hm ▸ Int.lt_floor_add_one _
  have half : |q - m| ≤ 1 / 2 := abs_le.2 ⟨by linarith, by linarith⟩
  -- An integer below `m` is at least as far from `q` as `m` is, and one above it is farther.
  have below {n : ℤ} (less : n < m) : 1 / 2 ≤ q - n := by
    have less : (n : ℚ) + 1 ≤ m := by exact_mod_cast less
    linarith
  have above {n : ℤ} (more : m < n) : |q - m| < |q - n| := by
    have more : (m : ℚ) + 1 ≤ n := by exact_mod_cast more
    rw [abs_sub_comm q n]
    exact half.trans_lt (lt_of_lt_of_le (by linarith) (le_abs_self _))
  rw [nearest_of_nonneg h, ← hm]
  refine ⟨⟨m, rfl⟩, ?_, ?_⟩
  · rintro _ ⟨n, rfl⟩
    rcases lt_trichotomy n m with less | rfl | more
    · exact half.trans ((below less).trans (le_abs_self _))
    · exact le_rfl
    · exact (above more).le
  · rintro _ ⟨n, rfl⟩ same
    rcases lt_trichotomy n m with less | rfl | more
    · have natural : 0 ≤ n := by
        have far : q - n ≤ 1 / 2 := (le_abs_self _).trans (same ▸ half)
        have : ((-1 : ℤ) : ℚ) < n := by push_cast; linarith
        have : -1 < n := by exact_mod_cast this
        omega
      have order : (n : ℚ) ≤ m := by exact_mod_cast less.le
      rw [abs_of_nonneg (by exact_mod_cast natural)]
      exact order.trans (le_abs_self _)
    · exact le_rfl
    · exact absurd same (above more).ne'

theorem nearest_integers (q : ℚ) : Nearest integers q (nearest q) := by
  rcases le_total 0 q with h | h
  · exact nearest_integers_of_nonneg h
  · have symmetric : ∀ s ∈ integers, -s ∈ integers := by
      rintro _ ⟨n, rfl⟩
      exact ⟨-n, Int.cast_neg n⟩
    have mirrored := (nearest_integers_of_nonneg (neg_nonneg.2 h)).neg symmetric
    rwa [nearest_neg, Int.cast_neg, neg_neg, neg_neg] at mirrored

/-- Rounding does not go past an integer. -/
theorem abs_nearest_le {q : ℚ} {n : ℤ} (h : |q| ≤ n) : |nearest q| ≤ n := by
  have nonneg {q : ℚ} (pos : 0 ≤ q) (h : |q| ≤ n) : |nearest q| ≤ n := by
    rw [abs_of_nonneg pos] at h
    have natural : 0 ≤ ⌊q + 1 / 2⌋ := Int.floor_nonneg.2 (by linarith)
    rw [nearest_of_nonneg pos, abs_of_nonneg natural, ← Int.lt_add_one_iff, Int.floor_lt]
    push_cast
    linarith
  rcases le_total 0 q with pos | neg
  · exact nonneg pos h
  · have mirrored := nonneg (neg_nonneg.2 neg) (by rwa [abs_neg])
    rwa [nearest_neg, abs_neg] at mirrored

end Rational

open Rational

namespace Rounding

/-- The numbers that a rounding comes to: the multiples of a power of ten, or the numbers with so
many significant digits. -/
def grid : Rounding → Set ℚ
  | places count => {r | ∃ n : ℤ, r = n / 10 ^ count}
  | significant count => {r | ∃ m e : ℤ, |m| < 10 ^ count ∧ r = m * 10 ^ e}

theorem zero_mem_grid (rounding : Rounding) : 0 ∈ rounding.grid := by
  cases rounding with
  | places count => exact ⟨0, by simp⟩
  | significant count => exact ⟨0, 0, by simp, by simp⟩

theorem nearest_toPlaces (count : ℤ) (q : ℚ) :
    Nearest (grid (.places count)) q (toPlaces count q) := by
  have scaled := (nearest_integers (q * 10 ^ count)).div (by positivity)
  have same : (· / (10 : ℚ) ^ count) '' integers = grid (.places count) := by
    ext r
    simp [integers, grid, eq_comm]
  rwa [same] at scaled

/-- A power of ten that has a digit more than the others is written with one digit all the same. -/
theorem mem_grid_significant {count : ℕ} (pos : 0 < count) {m : ℤ} (h : |m| ≤ 10 ^ count)
    (e : ℤ) : (m * 10 ^ e : ℚ) ∈ grid (.significant count) := by
  rcases h.lt_or_eq with less | full
  · exact ⟨m, e, less, rfl⟩
  · have nonzero : m ≠ 0 := by
      rintro rfl
      rw [abs_zero] at full
      exact absurd full (by positivity)
    refine ⟨m.sign, count + e, ?_, ?_⟩
    · rw [Int.abs_sign_of_ne_zero nonzero]
      exact one_lt_pow₀ (by norm_num) pos.ne'
    · have whole : m = m.sign * 10 ^ count := by rw [← full, Int.sign_mul_abs]
      have whole : (m : ℚ) = m.sign * 10 ^ count := by exact_mod_cast whole
      rw [whole, mul_assoc, zpow_add₀ (by norm_num), zpow_natCast]

/-- The leading digit of a number, followed by zeros, is on every grid that reaches so far. -/
theorem exists_leading {count : ℕ} (pos : 0 < count) {q : ℚ} (nonzero : q ≠ 0) :
    ∃ b ∈ grid (.places (count - 1 - Int.log 10 |q|)), |q - b| = |q| - 10 ^ Int.log 10 |q| := by
  have lower : (10 : ℚ) ^ Int.log 10 |q| ≤ |q| := by
    exact_mod_cast Int.zpow_log_le_self (b := 10) (by norm_num) (abs_pos.2 nonzero)
  have power : (10 : ℚ) ^ Int.log 10 |q| =
      (10 ^ (count - 1) : ℤ) / 10 ^ (count - 1 - Int.log 10 |q|) := by
    rw [eq_div_iff (by positivity), ← zpow_add₀ (by norm_num), Int.cast_pow, Int.cast_ofNat,
      ← zpow_natCast]
    congr 1
    omega
  rcases lt_or_gt_of_ne nonzero with neg | above
  · refine ⟨-10 ^ Int.log 10 |q|, ⟨-10 ^ (count - 1), ?_⟩, ?_⟩
    · rw [power]
      push_cast
      ring
    · rw [abs_of_neg neg] at lower ⊢
      rw [sub_neg_eq_add, abs_of_nonpos (by linarith)]
      ring
  · refine ⟨10 ^ Int.log 10 |q|, ⟨10 ^ (count - 1), power⟩, ?_⟩
    rw [abs_of_pos above] at lower ⊢
    exact abs_of_nonneg (by linarith)

/-- Numbers with few digits are points of a grid behind the leading digit of `q`, or they are so
small that the leading digit alone is nearer to `q`. -/
theorem mem_places_or_far {count : ℕ} (pos : 0 < count) {q s : ℚ} (nonzero : q ≠ 0)
    (h : s ∈ grid (.significant count)) :
    s ∈ grid (.places (count - 1 - Int.log 10 |q|)) ∨ |q - toDigits count q| < |q - s| := by
  obtain ⟨m, e, few, rfl⟩ := h
  obtain ⟨k, hk⟩ : ∃ k, k = count - 1 - Int.log 10 |q| := ⟨_, rfl⟩
  rw [← hk]
  by_cases fine : 0 ≤ e + k
  · refine .inl ⟨m * 10 ^ (e + k).toNat, ?_⟩
    rw [eq_div_iff (by positivity), mul_assoc, ← zpow_add₀ (by norm_num), Int.cast_mul,
      Int.cast_pow, Int.cast_ofNat, ← zpow_natCast, Int.toNat_of_nonneg fine]
  · have small : |(m * 10 ^ e : ℚ)| < 10 ^ Int.log 10 |q| := by
      have few : (|m| : ℚ) < 10 ^ count := by exact_mod_cast few
      have scale : (0 : ℚ) < 10 ^ e := by positivity
      calc |(m * 10 ^ e : ℚ)| = |m| * 10 ^ e := by rw [abs_mul, abs_of_pos scale, Int.cast_abs]
        _ < 10 ^ count * 10 ^ e := by gcongr; exact_mod_cast few
        _ = 10 ^ (count + e) := by rw [zpow_add₀ (by norm_num), zpow_natCast]
        _ ≤ 10 ^ Int.log 10 |q| := zpow_le_zpow_right₀ (by norm_num) (by omega)
    obtain ⟨b, mem, distance⟩ := exists_leading pos nonzero
    have near := (nearest_toPlaces _ q).closest b mem
    refine .inr ?_
    calc |q - toDigits count q| ≤ |q| - 10 ^ Int.log 10 |q| := near.trans_eq distance
      _ < |q| - |(m * 10 ^ e : ℚ)| := sub_lt_sub_left small _
      _ ≤ |q - m * 10 ^ e| := abs_sub_abs_le_abs_sub _ _

theorem toDigits_mem_grid {count : ℕ} (pos : 0 < count) (q : ℚ) :
    toDigits count q ∈ grid (.significant count) := by
  have upper : |q| ≤ 10 ^ (Int.log 10 |q| + 1) := by
    exact_mod_cast (Int.lt_zpow_succ_log_self (b := 10) (by norm_num) |q|).le
  have scale : (0 : ℚ) < 10 ^ (count - 1 - Int.log 10 |q|) := by positivity
  have few : |q * 10 ^ (count - 1 - Int.log 10 |q|)| ≤ (10 ^ count : ℤ) := by
    calc |q * 10 ^ (count - 1 - Int.log 10 |q|)|
        ≤ 10 ^ (Int.log 10 |q| + 1) * 10 ^ (count - 1 - Int.log 10 |q|) := by
          rw [abs_mul, abs_of_pos scale]
          gcongr
      _ = (10 ^ count : ℤ) := by
          rw [← zpow_add₀ (by norm_num), Int.cast_pow, Int.cast_ofNat, ← zpow_natCast]
          congr 1
          ring
  have mem := mem_grid_significant pos (abs_nearest_le few) (-(count - 1 - Int.log 10 |q|))
  rwa [zpow_neg, ← div_eq_mul_inv] at mem

theorem nearest_toDigits {count : ℕ} (pos : 0 < count) (q : ℚ) :
    Nearest (grid (.significant count)) q (toDigits count q) := by
  by_cases nonzero : q = 0
  · subst nonzero
    rw [show toDigits count 0 = 0 from apply_zero (.significant count)]
    exact .self (zero_mem_grid (.significant count))
  · have near := nearest_toPlaces (count - 1 - Int.log 10 |q|) q
    refine ⟨toDigits_mem_grid pos q, fun s hs => ?_, fun s hs same => ?_⟩
    · rcases mem_places_or_far pos nonzero hs with mem | far
      · exact near.closest s mem
      · exact far.le
    · rcases mem_places_or_far pos nonzero hs with mem | far
      · exact near.away s mem same
      · exact absurd same far.ne'

end Rounding

end ConstLang
