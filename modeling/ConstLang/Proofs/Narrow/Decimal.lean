import ConstLang.Narrow.Decimal
import ConstLang.Proofs.Evaluation.Size

/-!
# Narrow exponents suffice for decimals of limited size

Decimals of a size up to `room` have exponents far from the ends of a signed 64-bit word, so that
the few of them that an operation adds up do not overflow. An operation on narrow exponents then
comes to what the plain one comes to.
-/

namespace ConstLang

theorem Digits.inExponentRange_iff {n : ℤ} :
    inExponentRange n = true ↔ -2 ^ 63 ≤ n ∧ n < 2 ^ 63 := decide_eq_true_iff

namespace Narrow

open Digits

/-- Sizes up to this one leave room in a word for sums of exponents. -/
def room : ℕ := 2 ^ 48

theorem word_of_inRange {n : ℤ} (fits : inExponentRange n = true) : word n = .ok n := if_pos fits

theorem word_eq {n : ℤ} (low : -2 ^ 63 ≤ n) (high : n < 2 ^ 63) : word n = .ok n :=
  word_of_inRange (inExponentRange_iff.2 ⟨low, high⟩)

theorem normal_eq {mantissa exponent : ℤ}
    (low : -2 ^ 63 ≤ (Decimal.normal mantissa exponent).exponent)
    (high : (Decimal.normal mantissa exponent).exponent < 2 ^ 63) :
    normal mantissa exponent = .ok (Decimal.normal mantissa exponent) := by
  rw [normal, word_eq low high]
  rfl

/-- The exponents that a rounding computes on its way. -/
def steps (x : Decimal) : Rounding → List ℤ
  | .places count => [-x.exponent, -count]
  | .significant count => [x.exponent + (x.digits - count : ℕ)]

/-- A rounding whose exponents all fit in a word does not overflow. -/
theorem round_of_inRange {x : Decimal} {rounding : Rounding}
    (fits : ∀ n ∈ (x.round rounding).exponent :: steps x rounding,
      inExponentRange n = true) : round x rounding = .ok (x.round rounding) := by
  have held {n : ℤ} (mem : n ∈ steps x rounding) : word n = .ok n :=
    word_of_inRange (fits n (List.mem_cons_of_mem _ mem))
  obtain ⟨low, high⟩ := inExponentRange_iff.1 (fits _ List.mem_cons_self)
  cases rounding with
  | places count =>
    rw [Decimal.round] at low high ⊢
    rw [round, held (by simp [steps]), ok_bind]
    split
    · rfl
    · next less =>
      rw [if_neg less] at low high
      rw [held (by simp [steps]), ok_bind]
      exact normal_eq low high
  | significant count =>
    rw [Decimal.round] at low high ⊢
    rw [round]
    split
    · rfl
    · next many =>
      rw [if_neg many] at low high
      dsimp only
      rw [held List.mem_cons_self, ok_bind]
      exact normal_eq low high

theorem leading_of_inRange {x : Decimal} (behind : inExponentRange (x.digits - 1) = true)
    (first : inExponentRange x.leading = true) : leading x = .ok x.leading := by
  rw [leading, word_of_inRange behind, ok_bind]
  exact word_of_inRange first

theorem leading_eq {x : Decimal} (few : x.digits ≤ 2 ^ 63) (low : -2 ^ 63 ≤ x.leading)
    (high : x.leading < 2 ^ 63) : leading x = .ok x.leading := by
  have := x.one_le_digits
  exact leading_of_inRange (inExponentRange_iff.2 (by omega)) (inExponentRange_iff.2 ⟨low, high⟩)

/-- The exponents that a division computes before it places its guard digit. -/
def guardSteps (x y : Decimal) : Rounding → List ℤ
  | .places _ => []
  | .significant count =>
    [Int.bmod count (Nat.pow 2 64) + 1, x.digits - 1, x.leading, y.digits - 1, y.leading,
      x.leading - y.leading]

/-- The exponents that a division computes when it cuts its quotient. -/
def cutSteps (x y : Decimal) (places : ℤ) : List ℤ :=
  [x.exponent - y.exponent, x.exponent - y.exponent + places, -places,
    (Decimal.cutQuotient x y places).exponent]

/-- The exponents that a division computes on its way. -/
def divisionSteps (x y : Decimal) (rounding : Rounding) : List ℤ :=
  let places := Decimal.guardPlaces x y rounding
  let quotient := Decimal.cutQuotient x y places
  guardSteps x y rounding ++ places :: cutSteps x y places ++
    (quotient.round rounding).exponent :: steps quotient rounding

theorem guardPlaces_of_inRange {x y : Decimal} {rounding : Rounding}
    (fits : ∀ n ∈ guardSteps x y rounding, inExponentRange n = true)
    (placed : inExponentRange (Decimal.guardPlaces x y rounding) = true) :
    guardPlaces x y rounding = .ok (Decimal.guardPlaces x y rounding) := by
  cases rounding with
  | places count => exact word_of_inRange placed
  | significant count =>
    have held {n : ℤ} (mem : n ∈ guardSteps x y (.significant count)) : word n = .ok n :=
      word_of_inRange (fits n mem)
    have hx := leading_of_inRange (fits (x.digits - 1) (by simp [guardSteps]))
      (fits x.leading (by simp [guardSteps]))
    have hy := leading_of_inRange (fits (y.digits - 1) (by simp [guardSteps]))
      (fits y.leading (by simp [guardSteps]))
    rw [guardPlaces, held (by simp [guardSteps]), hx, hy, ok_bind, ok_bind, ok_bind,
      held (by simp [guardSteps]), ok_bind]
    exact word_of_inRange placed

theorem cutQuotient_of_inRange {x y : Decimal} {places : ℤ}
    (fits : ∀ n ∈ cutSteps x y places, inExponentRange n = true) :
    cutQuotient x y places = .ok (Decimal.cutQuotient x y places) := by
  have held {n : ℤ} (mem : n ∈ cutSteps x y places) : word n = .ok n :=
    word_of_inRange (fits n mem)
  obtain ⟨low, high⟩ := inExponentRange_iff.1
    (fits (Decimal.cutQuotient x y places).exponent (by simp [cutSteps]))
  rw [cutQuotient, held (by simp [cutSteps]), ok_bind, held (by simp [cutSteps]), ok_bind,
    held (by simp [cutSteps]), ok_bind]
  exact normal_eq low high

/-- A division whose exponents all fit in a word does not overflow. -/
theorem div?_of_inRange {x y : Decimal} {rounding : Rounding}
    (fits : ∀ n ∈ divisionSteps x y rounding, inExponentRange n = true) :
    div? x y rounding = .ok (x.div? y rounding) := by
  rw [divisionSteps, List.forall_mem_append, List.forall_mem_append, List.forall_mem_cons] at fits
  obtain ⟨⟨guards, placed, cuts⟩, rounds⟩ := fits
  unfold div? Decimal.div?
  split
  · rfl
  · split
    · rfl
    · rw [guardPlaces_of_inRange guards placed, ok_bind, cutQuotient_of_inRange cuts, ok_bind,
        round_of_inRange rounds]
      rfl

theorem leading_abs (x : Decimal) : leading x.abs = leading x := by
  rw [leading, leading, Decimal.digits_abs]
  rfl

variable {n m : ℕ} {x y : Decimal}

/-! ## Operations -/

theorem normal_eq_of_sized {mantissa exponent : ℤ} (h : (Decimal.normal mantissa exponent).Sized n)
    (small : n ≤ room) : normal mantissa exponent = .ok (Decimal.normal mantissa exponent) := by
  have bounds := h.bounds
  unfold room at small
  exact normal_eq (by omega) (by omega)

theorem leading_eq_of_sized (h : x.Sized n) (small : n ≤ room) : leading x = .ok x.leading := by
  have bounds := h.bounds
  have span : x.leading = x.digits - 1 + x.exponent := rfl
  unfold room at small
  exact leading_eq (by omega) (by omega) (by omega)

theorem mul_eq (hx : x.Sized n) (hy : y.Sized m) (small : n + m ≤ room) :
    mul x y = .ok (x * y) := by
  have hx' := hx.bounds
  have hy' := hy.bounds
  have product :
      (Decimal.normal (x.mantissa * y.mantissa) (x.exponent + y.exponent)).Sized (n + m) :=
    hx.mul hy
  unfold mul
  rw [word_eq (by unfold room at small; omega) (by unfold room at small; omega), ok_bind]
  exact normal_eq_of_sized product small

/-! Decimals of any size do overflow. -/

example : mul ⟨1, 2 ^ 62⟩ ⟨1, 2 ^ 62⟩ = .error ⟨2 ^ 63⟩ := by decide +kernel

theorem rem?_eq (hx : x.Sized n) (hy : y.Sized m) (small : n + m ≤ room) :
    rem? x y = .ok (x.rem? y) := by
  unfold rem? Decimal.rem?
  split
  · rfl
  · next nonzero =>
    have remainder : (Decimal.aligned Int.tmod x y).Sized (n + m) :=
      hx.rem hy (if_neg nonzero)
    rw [aligned, normal_eq_of_sized remainder small]
    rfl

/-- Rounding moves an exponent up to the position of the last digit that is kept. -/
theorem inRange_steps (h : x.Sized n) {rounding : Rounding} (short : rounding.Short)
    (small : n < room) :
    ∀ e ∈ (x.round rounding).exponent :: steps x rounding, inExponentRange e = true := by
  have bounds := h.bounds
  have result := (h.round short).bounds
  unfold room at small
  refine List.forall_mem_cons.2
    ⟨inExponentRange_iff.2 (by omega), fun e mem => inExponentRange_iff.2 ?_⟩
  cases rounding with
  | places count =>
    obtain rfl : count = 0 := short
    obtain rfl | rfl : e = -x.exponent ∨ e = -0 := by simpa [steps] using mem
    all_goals omega
  | significant count =>
    have span : x.leading = x.digits - 1 + x.exponent := rfl
    obtain rfl := List.mem_singleton.1 mem
    omega

theorem round_eq (h : x.Sized n) {rounding : Rounding} (short : rounding.Short)
    (small : n < room) : round x rounding = .ok (x.round rounding) :=
  round_of_inRange (inRange_steps h short small)

/-- The guard digit lies at most one place behind the last place of the quotient. -/
theorem inRange_guardSteps (hx : x.Sized n) (hy : y.Sized m) {rounding : Rounding}
    (short : rounding.Short) (small : n + m ≤ room) :
    (∀ e ∈ guardSteps x y rounding, inExponentRange e = true) ∧
      -(400 * (n + m : ℕ)) ≤ Decimal.guardPlaces x y rounding ∧
      Decimal.guardPlaces x y rounding ≤ 400 * (n + m : ℕ) := by
  have hn := hx.size.pos
  have hx' := hx.bounds
  have hy' := hy.bounds
  cases rounding with
  | places count =>
    obtain rfl : count = 0 := short
    have guard : Decimal.guardPlaces x y (.places 0) = 1 := rfl
    exact ⟨List.forall_mem_nil _, by omega, by omega⟩
  | significant count =>
    obtain ⟨some_digit, few⟩ := short
    have left : x.leading = x.digits - 1 + x.exponent := rfl
    have right : y.leading = y.digits - 1 + y.exponent := rfl
    unfold room at small
    rw [guardSteps, Decimal.guardPlaces_significant, Decimal.bmod_eq_self (by omega)]
    refine ⟨fun e mem => inExponentRange_iff.2 ?_, by omega, by omega⟩
    simp only [List.mem_cons, List.not_mem_nil, or_false] at mem
    omega

theorem inRange_divisionSteps (hx : x.Sized n) (hy : y.Sized m) (nonzero : y.toRat ≠ 0)
    {rounding : Rounding} (short : rounding.Short) (small : n + m + 1 < room) :
    ∀ e ∈ divisionSteps x y rounding, inExponentRange e = true := by
  have hx' := hx.bounds
  have hy' := hy.bounds
  obtain ⟨guards, low, high⟩ := inRange_guardSteps hx hy short (by omega)
  have cut : (Decimal.cutQuotient x y (Decimal.guardPlaces x y rounding)).Sized (n + 1 + m) :=
    Decimal.sized_cutQuotient (hx.mono n.le_succ) hy nonzero (by push_cast at high ⊢; omega)
  have rounds := inRange_steps cut short (by omega)
  have bounds := cut.bounds
  unfold room at small
  rw [divisionSteps, List.forall_mem_append, List.forall_mem_append, List.forall_mem_cons]
  refine ⟨⟨guards, inExponentRange_iff.2 (by omega), fun e mem => inExponentRange_iff.2 ?_⟩, rounds⟩
  simp only [cutSteps, List.mem_cons, List.not_mem_nil, or_false] at mem
  omega

theorem div?_eq (hx : x.Sized n) (hy : y.Sized m) {rounding : Rounding} (short : rounding.Short)
    (small : n + m + 1 < room) : div? x y rounding = .ok (x.div? y rounding) := by
  by_cases zero : y.isZero = true
  · rw [div?, Decimal.div?, if_pos zero, if_pos zero]
  · have nonzero : y.toRat ≠ 0 := fun zero' => zero (Decimal.isZero_iff.2 zero')
    exact div?_of_inRange (inRange_divisionSteps hx hy nonzero short small)

theorem operate?_eq (op : Operator) {type : Scalar} (storable : type.isStorable = true)
    (hx : x.Sized n) (hy : y.Sized m) (small : n + m + 1 < room) :
    operate? op type x y = (.ok <| op.apply? type x y) := by
  have fits : n + m ≤ room := by omega
  cases op with
  | add =>
    have sum : (Decimal.aligned (· + ·) x y).Sized (n + m) := hx.add hy
    rw [operate?, aligned, normal_eq_of_sized sum fits]
    rfl
  | subtract =>
    have difference : (Decimal.aligned (· - ·) x y).Sized (n + m) := hx.sub hy
    rw [operate?, aligned, normal_eq_of_sized difference fits]
    rfl
  | multiply =>
    rw [operate?, mul_eq hx hy fits]
    rfl
  | divide => exact div?_eq hx hy (Scalar.short_quotientRounding storable) small
  | remainder => exact rem?_eq hx hy fits

/-! ## Comparing and binding -/

theorem order_eq (hx : leading x = .ok x.leading) (hy : leading y = .ok y.leading) :
    order x y = .ok (compare x y) := by
  have plain : compare x y = Decimal.compare x y := rfl
  have absolute : compareAbs x y = .ok (Decimal.compareAbs x y) := by
    unfold compareAbs
    rw [hx, hy]
    rfl
  unfold order
  rw [plain, Decimal.compare, absolute]
  cases signs : compare x.mantissa.sign y.mantissa.sign with
  | lt | gt => rfl
  | eq =>
    by_cases zero : x.isZero = true
    · simp [zero]
    · cases negative : x.isNegative <;> simp [zero, Except.map]

/-- Whether a decimal fits a type is decided by the positions of leading digits. -/
theorem misfit?_eq (hx : leading x = .ok x.leading) (type : Scalar) :
    misfit? x type.format = .ok (type.misfit? x) := by
  have float {digits : ℕ} {least greatest : Decimal} (hl : leading least = .ok least.leading)
      (hg : leading greatest = .ok greatest.leading) :
      misfit? x (.float digits least greatest) =
        .ok ((Format.float digits least greatest).misfit? x) := by
    have absolute : leading x.abs = .ok x.abs.leading := by
      rw [leading_abs, hx, Decimal.leading_abs]
    rw [misfit?, Format.misfit?, order_eq absolute hg, order_eq absolute hl]
    simp only [ok_bind]
    split
    · rfl
    · split
      · rfl
      · by_cases upper : compare x.abs greatest = .gt
        · simp [upper]
          rfl
        · by_cases lower : compare x.abs least = .lt <;> simp [upper, lower] <;> rfl
  cases type with
  | f4 | f8 => exact float (by decide +kernel) (by decide +kernel)
  | _ => rfl

theorem bind_eq (h : x.Sized n) (small : n < room) (type : Scalar) :
    bind type x = .ok (type.bind x) := by
  have fits {stored : Decimal} (sized : stored.Sized (n + 1)) :
      misfit? stored type.format = .ok (type.misfit? stored) :=
    misfit?_eq (leading_eq_of_sized sized small) type
  unfold bind Scalar.bind
  cases rounds : type.format.storedRounding? with
  | none =>
    dsimp only
    rw [ok_bind, fits (h.mono n.le_succ), ok_bind]
    cases type.misfit? x <;> rfl
  | some rounding =>
    have short := Scalar.short_storedRounding? rounds
    dsimp only
    rw [round_eq h short small, ok_bind, fits (h.round short), ok_bind]
    cases type.misfit? (x.round rounding) <;> rfl

end Narrow

end ConstLang
