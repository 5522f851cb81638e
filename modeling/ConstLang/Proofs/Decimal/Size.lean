import ConstLang.Proofs.Decimal.Nearest

/-!
# How large exponents grow

`Rational.Sized n q` bounds a number from both sides: it has few decimal places, and few digits in
front of the point. The bounds grow with `n`, and are chosen so that every operation on numbers of
sizes `n` and `m` comes to one of size `n + m`: sums and products, the remainder, and also a
quotient that is rounded to few digits, which is as fine as its own leading digit allows. For a
decimal in normal form the bounds are bounds on its exponent and on the position of its leading
digit (`Decimal.IsNormal.sized_iff`).
-/

namespace ConstLang

open Digits

namespace Rounding

variable {c d : ℤ} {q r : ℚ}

/-! ## Decimal places -/

theorem mem_places_mono (h : c ≤ d) (hq : q ∈ grid (.places c)) : q ∈ grid (.places d) := by
  obtain ⟨m, rfl⟩ := hq
  refine ⟨m * 10 ^ (d - c).toNat, ?_⟩
  have scale : (10 : ℚ) ^ d = 10 ^ c * 10 ^ (d - c).toNat := by
    rw [← zpow_natCast, Int.toNat_of_nonneg (by omega), ← zpow_add₀ (by norm_num), add_sub_cancel]
  rw [scale]
  push_cast
  field_simp

theorem neg_mem_places (hq : q ∈ grid (.places c)) : -q ∈ grid (.places c) := by
  obtain ⟨m, rfl⟩ := hq
  exact ⟨-m, by push_cast; ring⟩

theorem add_mem_places (hq : q ∈ grid (.places c)) (hr : r ∈ grid (.places c)) :
    q + r ∈ grid (.places c) := by
  obtain ⟨m, rfl⟩ := hq
  obtain ⟨n, rfl⟩ := hr
  exact ⟨m + n, by push_cast; ring⟩

theorem mul_mem_places (hq : q ∈ grid (.places c)) (hr : r ∈ grid (.places d)) :
    q * r ∈ grid (.places (c + d)) := by
  obtain ⟨m, rfl⟩ := hq
  obtain ⟨n, rfl⟩ := hr
  refine ⟨m * n, ?_⟩
  rw [zpow_add₀ (by norm_num)]
  push_cast
  field_simp

theorem mul_intCast_mem_places (hq : q ∈ grid (.places c)) (n : ℤ) :
    q * n ∈ grid (.places c) := by
  obtain ⟨m, rfl⟩ := hq
  exact ⟨m * n, by push_cast; ring⟩

/-- A number that is not zero is at least one unit of its last place. -/
theorem le_abs_of_mem_places (hq : q ∈ grid (.places c)) (nonzero : q ≠ 0) :
    (10 : ℚ) ^ (-c) ≤ |q| := by
  obtain ⟨m, rfl⟩ := hq
  have scale : (0 : ℚ) < 10 ^ c := by positivity
  have whole : m ≠ 0 := by
    rintro rfl
    simp at nonzero
  have unit : (1 : ℚ) ≤ |(m : ℚ)| := by exact_mod_cast Int.one_le_abs whole
  rw [abs_div, abs_of_pos scale, zpow_neg, inv_eq_one_div]
  gcongr

/-- A rounding to an integer, or to a few digits: those of the types that variables have. -/
def Short : Rounding → Prop
  | places count => count = 0
  | significant count => 0 < count ∧ count ≤ 16

instance (rounding : Rounding) : Decidable rounding.Short :=
  match rounding with
  | places count => inferInstanceAs (Decidable (count = 0))
  | significant count => inferInstanceAs (Decidable (0 < count ∧ count ≤ 16))

theorem Short.inWord {rounding : Rounding} (h : rounding.Short) : rounding.InWord := by
  cases rounding with
  | places count => trivial
  | significant count => exact ⟨h.1, h.2.trans_lt (by norm_num)⟩

end Rounding

namespace Rational

open Rounding

theorem le_log_iff {q : ℚ} (pos : 0 < q) {k : ℤ} : k ≤ Int.log 10 q ↔ 10 ^ k ≤ q := by
  rw [← Int.zpow_le_iff_le_log (by norm_num) pos, Nat.cast_ofNat]

theorem log_lt_iff {q : ℚ} (pos : 0 < q) {k : ℤ} : Int.log 10 q < k ↔ q < 10 ^ k := by
  rw [← Int.lt_zpow_iff_log_lt (by norm_num) pos, Nat.cast_ofNat]

/-- Rounding does not go past a power of ten that is on the grid. -/
theorem abs_toPlaces_le {c k : ℤ} {q : ℚ} (fine : 0 ≤ c + k) (h : |q| ≤ 10 ^ k) :
    |toPlaces c q| ≤ 10 ^ k := by
  have scale : (0 : ℚ) < 10 ^ c := by positivity
  have power : (10 : ℚ) ^ k * 10 ^ c = (10 ^ (c + k).toNat : ℤ) := by
    rw [← zpow_add₀ (by norm_num), add_comm, Int.cast_pow, Int.cast_ofNat, ← zpow_natCast,
      Int.toNat_of_nonneg fine]
  have scaled : |q * 10 ^ c| ≤ (10 ^ (c + k).toNat : ℤ) := by
    rw [abs_mul, abs_of_pos scale, ← power]
    gcongr
  have nearest : (|nearest (q * 10 ^ c)| : ℚ) ≤ (10 ^ (c + k).toNat : ℤ) := by
    exact_mod_cast abs_nearest_le scaled
  rw [toPlaces, abs_div, abs_of_pos scale, div_le_iff₀ scale, power]
  exact nearest

/-- What is left when a number is cut is no larger than the number. -/
theorem abs_sub_cut_le (q : ℚ) : |q - cut q| ≤ |q| := by
  have nonneg {q : ℚ} (h : 0 ≤ q) : |q - cut q| ≤ |q| := by
    have low : (0 : ℚ) ≤ cut q := by exact_mod_cast cut_nonneg h
    have high : (cut q : ℚ) ≤ q := cut_of_nonneg h ▸ Int.floor_le q
    rw [abs_of_nonneg (by linarith), abs_of_nonneg h]
    linarith
  rcases le_total 0 q with h | h
  · exact nonneg h
  · have mirrored := nonneg (neg_nonneg.2 h)
    rwa [cut_neg, Int.cast_neg, ← neg_sub', abs_neg, abs_neg] at mirrored

/-- The remainder is no larger than the dividend. -/
theorem abs_sub_mul_cut_le (x : ℚ) {y : ℚ} (nonzero : y ≠ 0) : |x - y * cut (x / y)| ≤ |x| := by
  have left : x - y * cut (x / y) = y * (x / y - cut (x / y)) := by field_simp
  calc |x - y * cut (x / y)| = |y| * |x / y - cut (x / y)| := by rw [left, abs_mul]
    _ ≤ |y| * |x / y| := mul_le_mul_of_nonneg_left (abs_sub_cut_le _) (abs_nonneg y)
    _ = |x| := by rw [← abs_mul, mul_div_cancel₀ x nonzero]

/-- Cutting to a number of places does not make a number larger. -/
theorem abs_cut_div_le (c : ℤ) (q : ℚ) : |(cut (q * 10 ^ c) / 10 ^ c : ℚ)| ≤ |q| := by
  have scale : (0 : ℚ) < 10 ^ c := by positivity
  rw [abs_div, abs_cut, abs_mul, abs_of_pos scale, div_le_iff₀ scale]
  exact Int.floor_le _

/-! ## Sizes -/

/-- The size of what an expression of so many literals and names comes to. -/
structure Sized (n : ℕ) (q : ℚ) : Prop where
  pos : 0 < n
  places : q ∈ grid (.places (400 * n - 1))
  small : |q| < 10 ^ (400 * n - 15 : ℤ)

namespace Sized

variable {n m : ℕ} {x y : ℚ}

theorem mono (h : n ≤ m) (hx : Sized n x) : Sized m x where
  pos := hx.pos.trans_le h
  places := mem_places_mono (by omega) hx.places
  small := hx.small.trans_le (zpow_le_zpow_right₀ (by norm_num) (by omega))

theorem zero (pos : 0 < n) : Sized n 0 := ⟨pos, zero_mem_grid (.places _), by simp; positivity⟩

theorem neg (hx : Sized n x) : Sized n (-x) :=
  ⟨hx.pos, neg_mem_places hx.places, by rw [abs_neg]; exact hx.small⟩

/-- Two numbers of a size add up to no more than one power of ten above it. -/
theorem add (hx : Sized n x) (hy : Sized m y) : Sized (n + m) (x + y) := by
  have hn := hx.pos
  have hm := hy.pos
  refine ⟨by omega, add_mem_places (hx.mono (by omega)).places (hy.mono (by omega)).places, ?_⟩
  have step : (2 : ℚ) * 10 ^ (400 * max n m - 15 : ℤ) ≤ 10 ^ (400 * (n + m : ℕ) - 15 : ℤ) := by
    calc (2 : ℚ) * 10 ^ (400 * max n m - 15 : ℤ)
        ≤ 10 * 10 ^ (400 * max n m - 15 : ℤ) := by gcongr; norm_num
      _ = 10 ^ (400 * max n m - 14 : ℤ) := by rw [← zpow_one_add₀ (by norm_num)]; congr 1; ring
      _ ≤ 10 ^ (400 * (n + m : ℕ) - 15 : ℤ) := zpow_le_zpow_right₀ (by norm_num) (by omega)
  have left := (hx.mono (le_max_left n m)).small
  have right := (hy.mono (le_max_right n m)).small
  push_cast at left right step ⊢
  have triangle := abs_add_le x y
  linarith

theorem sub (hx : Sized n x) (hy : Sized m y) : Sized (n + m) (x - y) :=
  sub_eq_add_neg x y ▸ hx.add hy.neg

theorem mul (hx : Sized n x) (hy : Sized m y) : Sized (n + m) (x * y) := by
  have hn := hx.pos
  refine ⟨by omega, mem_places_mono (by push_cast; omega) (mul_mem_places hx.places hy.places), ?_⟩
  calc |x * y| = |x| * |y| := abs_mul x y
    _ ≤ 10 ^ (400 * n - 15 : ℤ) * 10 ^ (400 * m - 15 : ℤ) := by
      gcongr
      · exact hx.small.le
      · exact hy.small.le
    _ = 10 ^ (400 * n - 15 + (400 * m - 15) : ℤ) := (zpow_add₀ (by norm_num) _ _).symm
    _ < 10 ^ (400 * (n + m : ℕ) - 15 : ℤ) := zpow_lt_zpow_right₀ (by norm_num) (by push_cast; omega)

theorem rem (hx : Sized n x) (hy : Sized m y) (nonzero : y ≠ 0) :
    Sized (n + m) (x - y * cut (x / y)) := by
  have hm := hy.pos
  refine ⟨by omega, ?_, ?_⟩
  · have multiple := mul_intCast_mem_places (hy.mono (Nat.le_add_left m n)).places (cut (x / y))
    exact sub_eq_add_neg x _ ▸
      add_mem_places (hx.mono (Nat.le_add_right n m)).places (neg_mem_places multiple)
  · exact (abs_sub_mul_cut_le x nonzero).trans_lt (hx.mono (Nat.le_add_right n m)).small

/-- The quotient of two numbers, which need not be on any grid. -/
theorem abs_div_lt (hx : Sized n x) (hy : Sized m y) (nonzero : y ≠ 0) :
    |x / y| < 10 ^ (400 * (n + m : ℕ) - 16 : ℤ) := by
  have divisor := le_abs_of_mem_places hy.places nonzero
  have scale : (0 : ℚ) < 10 ^ (-(400 * m - 1) : ℤ) := by positivity
  calc |x / y| = |x| / |y| := abs_div x y
    _ ≤ |x| / 10 ^ (-(400 * m - 1) : ℤ) := by gcongr
    _ < 10 ^ (400 * n - 15 : ℤ) / 10 ^ (-(400 * m - 1) : ℤ) := by gcongr; exact hx.small
    _ = 10 ^ (400 * (n + m : ℕ) - 16 : ℤ) := by
      rw [← zpow_sub₀ (by norm_num)]
      congr 1
      push_cast
      ring

theorem le_abs_div (hx : Sized n x) (hy : Sized m y) (hx0 : x ≠ 0) (hy0 : y ≠ 0) :
    (10 : ℚ) ^ (16 - 400 * (n + m : ℕ) : ℤ) ≤ |x / y| := by
  have dividend := le_abs_of_mem_places hx.places hx0
  have divisor := abs_pos.2 hy0
  calc (10 : ℚ) ^ (16 - 400 * (n + m : ℕ) : ℤ)
      = 10 ^ (-(400 * n - 1) : ℤ) / 10 ^ (400 * m - 15 : ℤ) := by
        rw [← zpow_sub₀ (by norm_num)]
        congr 1
        push_cast
        ring
    _ ≤ |x| / 10 ^ (400 * m - 15 : ℤ) := by gcongr
    _ ≤ |x| / |y| := by gcongr; exact hy.small.le
    _ = |x / y| := (abs_div x y).symm

end Sized

/-- A number that is rounded to few digits is as fine as its leading digit allows, and its leading
digit moves by one place at most. -/
theorem sized_apply {n : ℕ} {q : ℚ} {rounding : Rounding} (pos : 0 < n) (short : rounding.Short)
    (high : |q| ≤ 10 ^ (400 * n - 16 : ℤ)) (low : q ≠ 0 → (10 : ℚ) ^ (16 - 400 * n : ℤ) ≤ |q|) :
    Sized n (rounding.apply q) := by
  have rounded {c : ℤ} (coarse : c ≤ 400 * n - 1) (fine : 0 ≤ c + (400 * n - 16)) :
      Sized n (toPlaces c q) :=
    ⟨pos, mem_places_mono coarse (nearest_toPlaces c q).mem, (abs_toPlaces_le fine high).trans_lt
      (zpow_lt_zpow_right₀ (by norm_num) (by omega))⟩
  cases rounding with
  | places count =>
    obtain rfl : count = 0 := short
    exact rounded (by omega) (by omega)
  | significant count =>
    obtain ⟨some_digit, few⟩ := short
    by_cases zero : q = 0
    · rw [zero, apply_zero]
      exact .zero pos
    · have positive := abs_pos.2 zero
      have lower := (le_log_iff positive).2 (low zero)
      have upper : Int.log 10 |q| < 400 * n - 15 :=
        (log_lt_iff positive).2 <| high.trans_lt <|
          zpow_lt_zpow_right₀ (by norm_num) (by omega)
      exact rounded (by omega) (by omega)

theorem Sized.div {n m : ℕ} {x y : ℚ} {rounding : Rounding} (hx : Sized n x) (hy : Sized m y)
    (nonzero : y ≠ 0) (short : rounding.Short) : Sized (n + m) (rounding.apply (x / y)) := by
  have hn := hx.pos
  refine sized_apply (by omega) short (hx.abs_div_lt hy nonzero).le fun quotient => ?_
  exact hx.le_abs_div hy (fun zero => quotient (by rw [zero, zero_div])) nonzero

/-- Rounding may carry into one more digit. -/
theorem Sized.round {n : ℕ} {x : ℚ} {rounding : Rounding} (hx : Sized n x)
    (short : rounding.Short) : Sized (n + 1) (rounding.apply x) := by
  refine sized_apply n.succ_pos short (hx.small.le.trans ?_) fun nonzero => ?_
  · exact zpow_le_zpow_right₀ (by norm_num) (by push_cast; omega)
  · refine le_trans ?_ (le_abs_of_mem_places hx.places nonzero)
    exact zpow_le_zpow_right₀ (by norm_num) (by push_cast; omega)

end Rational

/-! ## Exponents -/

namespace Decimal

variable {n m : ℕ} {x y z : Decimal}

theorem one_le_digits (x : Decimal) : 1 ≤ x.digits := by
  rw [digits, ofNat_eq_toDigits]
  exact Nat.length_toDigits_pos

theorem exponent_le_leading (x : Decimal) : x.exponent ≤ x.leading := by
  have := x.one_le_digits
  unfold leading
  omega

/-- The size of a decimal in normal form bounds its exponent and the position of its leading
digit, and is bounded by them. -/
theorem IsNormal.sized_iff (h : x.IsNormal) (pos : 0 < n) :
    Rational.Sized n x.toRat ↔ 1 - 400 * n ≤ x.exponent ∧ x.leading ≤ 400 * n - 16 := by
  by_cases zero : x.toRat = 0
  · obtain rfl := h.eq_zero zero
    have exponent : (0 : Decimal).exponent = 0 := rfl
    have leading : (0 : Decimal).leading = 0 := by decide
    rw [toRat_zero, exponent, leading]
    exact ⟨fun _ => by omega, fun _ => .zero pos⟩
  · have positive := abs_pos.2 zero
    have log := log_abs_toRat zero
    constructor
    · intro sized
      obtain ⟨k, hk⟩ := sized.places
      constructor
      · have unit : x.toRat = (⟨k, 1 - 400 * n⟩ : Decimal).toRat := by
          rw [hk, toRat, div_eq_mul_inv, ← zpow_neg, neg_sub]
        exact h.exponent_le zero unit
      · have below := (Rational.log_lt_iff positive).2 sized.small
        omega
    · rintro ⟨low, high⟩
      refine ⟨pos, Rounding.mem_places_mono (c := -x.exponent) (by omega) ⟨x.mantissa, ?_⟩, ?_⟩
      · rw [toRat, zpow_neg, div_inv_eq_mul]
      · exact (Rational.log_lt_iff positive).1 (by omega)

/-- A decimal in normal form, of a size. -/
structure Sized (n : ℕ) (x : Decimal) : Prop where
  normal : x.IsNormal
  size : Rational.Sized n x.toRat

namespace Sized

theorem bounds (h : x.Sized n) :
    1 - 400 * n ≤ x.exponent ∧ x.exponent ≤ x.leading ∧ x.leading ≤ 400 * n - 16 := by
  obtain ⟨low, high⟩ := (h.normal.sized_iff h.size.pos).1 h.size
  exact ⟨low, x.exponent_le_leading, high⟩

theorem mono (h : n ≤ m) (hx : x.Sized n) : x.Sized m := ⟨hx.normal, hx.size.mono h⟩

theorem neg (h : x.Sized n) : (-x).Sized n := ⟨h.normal.neg, toRat_neg x ▸ h.size.neg⟩

theorem add (hx : x.Sized n) (hy : y.Sized m) : (x + y).Sized (n + m) :=
  ⟨isNormal_normal _ _, toRat_add x y ▸ hx.size.add hy.size⟩

theorem sub (hx : x.Sized n) (hy : y.Sized m) : (x - y).Sized (n + m) :=
  ⟨isNormal_normal _ _, toRat_sub x y ▸ hx.size.sub hy.size⟩

theorem mul (hx : x.Sized n) (hy : y.Sized m) : (x * y).Sized (n + m) :=
  ⟨isNormal_normal _ _, toRat_mul x y ▸ hx.size.mul hy.size⟩

theorem rem (hx : x.Sized n) (hy : y.Sized m) (h : x.rem? y = some z) : z.Sized (n + m) := by
  obtain ⟨nonzero, value⟩ := toRat_rem? h
  exact ⟨isNormal_rem? h, value ▸ hx.size.rem hy.size nonzero⟩

theorem div {rounding : Rounding} (hx : x.Sized n) (hy : y.Sized m) (short : rounding.Short)
    (h : x.div? y rounding = some z) : z.Sized (n + m) := by
  obtain ⟨nonzero, value⟩ := toRat_div? short.inWord h
  exact ⟨isNormal_div? h, value ▸ hx.size.div hy.size nonzero short⟩

theorem round {rounding : Rounding} (h : x.Sized n) (short : rounding.Short) :
    (x.round rounding).Sized (n + 1) :=
  ⟨h.normal.round rounding, toRat_round x rounding ▸ h.size.round short⟩

end Sized

/-- A quotient that is cut behind its last place has the size of the quotient. -/
theorem sized_cutQuotient {places : ℤ} (hx : x.Sized n) (hy : y.Sized m) (nonzero : y.toRat ≠ 0)
    (coarse : places ≤ 400 * (n + m : ℕ) - 1) : (cutQuotient x y places).Sized (n + m) := by
  have hn := hx.size.pos
  refine ⟨isNormal_normal _ _, by omega, ?_, ?_⟩
  · rw [toRat_cutQuotient]
    exact Rounding.mem_places_mono coarse ⟨_, rfl⟩
  · rw [toRat_cutQuotient]
    calc |(Rational.cut (x.toRat / y.toRat * 10 ^ places) / 10 ^ places : ℚ)|
        ≤ |x.toRat / y.toRat| := Rational.abs_cut_div_le places _
      _ < 10 ^ (400 * (n + m : ℕ) - 16 : ℤ) := hx.size.abs_div_lt hy.size nonzero
      _ ≤ 10 ^ (400 * (n + m : ℕ) - 15 : ℤ) := zpow_le_zpow_right₀ (by norm_num) (by omega)

end Decimal

end ConstLang
