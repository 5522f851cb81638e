import ConstLang.Proofs.Decimal.Size
import ConstLang.Proofs.Resolution.Typing

/-!
# The size of what expressions come to

A literal and a variable fit a type that variables have, and every such type holds numbers of size
one only. So an expression comes to a number whose size is the number of its literals and names,
whatever the definitions before it were: a variable counts once, since it was bound to its type.
-/

namespace ConstLang

/-! ## Types -/

namespace Decimal

variable {x y : Decimal}

/-- Absolute values are not in the order of their leading digits only if those are equal. -/
theorem leading_le_of_compareAbs (h : compareAbs x y ≠ .gt) : x.leading ≤ y.leading := by
  by_contra larger
  refine h ?_
  rw [compareAbs, compare_gt_iff_gt.2 (not_le.1 larger)]
  rfl

theorem le_leading_of_compareAbs (h : compareAbs x y ≠ .lt) : y.leading ≤ x.leading := by
  by_contra smaller
  refine h ?_
  rw [compareAbs, compare_lt_iff_lt.2 (not_le.1 smaller)]
  rfl

@[simp] theorem digits_abs (x : Decimal) : x.abs.digits = x.digits := by
  rw [digits, digits]
  exact congrArg (fun n => (Digits.ofNat n).length) (Int.natAbs_natCast _)

@[simp] theorem leading_abs (x : Decimal) : x.abs.leading = x.leading := by
  rw [leading, digits_abs]
  rfl

theorem compare_of_pos (hx : 0 < x.mantissa) (hy : 0 < y.mantissa) :
    compare x y = compareAbs x y := by
  change Decimal.compare x y = _
  have nonzero : x.isZero = false := by simp [isZero, hx.ne']
  have positive : x.isNegative = false := by simp [isNegative, hx.le]
  rw [Decimal.compare, Int.sign_eq_one_of_pos hx, Int.sign_eq_one_of_pos hy, nonzero, positive]
  rfl

theorem toRat_of_toInt? {n : ℤ} (h : x.toInt? = some n) : x.toRat = n := by
  unfold toInt? at h
  split at h
  · next whole =>
    obtain rfl := Option.some.inj h
    rw [toRat, Int.cast_mul, Int.cast_natCast, Digits.tenTo_cast, ← zpow_natCast,
      Int.toNat_of_nonneg whole]
  · contradiction

/-- An integer of up to twenty digits. -/
theorem sized_of_toInt? {n : ℤ} (h : x.toInt? = some n) (small : |n| < 10 ^ 20) :
    Rational.Sized 1 x.toRat := by
  rw [toRat_of_toInt? h]
  refine ⟨one_pos, Rounding.mem_places_mono (c := 0) (by norm_num) ⟨n, by simp⟩, ?_⟩
  have small : |(n : ℚ)| < 10 ^ 20 := by exact_mod_cast small
  have scale : (10 : ℚ) ^ (20 : ℤ) < 10 ^ (400 * (1 : ℕ) - 15 : ℤ) :=
    zpow_lt_zpow_right₀ (by norm_num) (by norm_num)
  exact small.trans scale

end Decimal

namespace Format

variable {x : Decimal}

theorem sized_of_integer {least greatest : ℤ} (fits : (integer least greatest).misfit? x = none)
    (low : -10 ^ 20 < least) (high : greatest < 10 ^ 20) : Rational.Sized 1 x.toRat := by
  rw [misfit?] at fits
  split at fits
  · contradiction
  · split at fits
    · contradiction
    · next n whole =>
      split at fits
      · next inside => exact Decimal.sized_of_toInt? whole (abs_lt.2 ⟨by omega, by omega⟩)
      · contradiction

theorem sized_of_float {digits : ℕ} {least greatest : Decimal} (normal : x.IsNormal)
    (fits : (float digits least greatest).misfit? x = none) (few : digits ≤ 16)
    (low : 0 < least.mantissa ∧ -383 ≤ least.leading)
    (high : 0 < greatest.mantissa ∧ greatest.leading ≤ 384) : Rational.Sized 1 x.toRat := by
  rw [misfit?] at fits
  split at fits
  · next zero => exact Decimal.isZero_iff.1 zero ▸ .zero one_pos
  · next nonzero =>
    have positive : 0 < x.abs.mantissa := by
      have : x.mantissa ≠ 0 := by simpa [Decimal.isZero] using nonzero
      exact Int.natCast_pos.2 (Int.natAbs_pos.2 this)
    split at fits
    · contradiction
    · split at fits
      · contradiction
      · next inside =>
        rw [Decimal.compare_of_pos positive high.1, Decimal.compare_of_pos positive low.1,
          not_or] at inside
        have upper := Decimal.leading_le_of_compareAbs inside.1
        have lower := Decimal.le_leading_of_compareAbs inside.2
        rw [Decimal.leading_abs] at upper lower
        have span : x.leading = x.digits - 1 + x.exponent := rfl
        exact (normal.sized_iff one_pos).2 ⟨by omega, by omega⟩

end Format

namespace Scalar

variable {type : Scalar}

/-- What a variable may hold has size one. -/
theorem sized_of_misfit? {x : Decimal} (storable : type.isStorable = true) (normal : x.IsNormal)
    (fits : type.misfit? x = none) : x.Sized 1 := by
  refine ⟨normal, ?_⟩
  cases type with
  | rinf => contradiction
  | f4 | f8 =>
    exact Format.sized_of_float normal fits (by decide) (by decide +kernel) (by decide +kernel)
  | _ => exact Format.sized_of_integer fits (by decide) (by decide)

theorem short_quotientRounding (storable : type.isStorable = true) :
    type.quotientRounding.Short := by
  cases type <;> first | contradiction | decide

theorem short_storedRounding? {rounding : Rounding}
    (h : type.format.storedRounding? = some rounding) : rounding.Short := by
  cases type <;> first | contradiction | (obtain rfl := Option.some.inj h; decide)

theorem isNormal_of_bind {x y : Decimal} (normal : x.IsNormal) (h : type.bind x = .ok y) :
    y.IsNormal := by
  unfold bind at h
  dsimp only at h
  split at h
  · contradiction
  · obtain rfl := Except.ok.inj h
    split
    · exact normal.round _
    · exact normal

end Scalar

/-! ## Expressions -/

/-- The number of literals and names in an expression. -/
def Expr.leaves : Expr → ℕ
  | literal _ _ | access _ => 1
  | group _ inner _ => inner.leaves
  | unary _ _ operand => operand.leaves
  | binary _ _ left right => left.leaves + right.leaves

theorem Operator.sized_apply? {op : Operator} {type : Scalar} {n m : ℕ} {x y z : Decimal}
    (storable : type.isStorable = true) (hx : x.Sized n) (hy : y.Sized m)
    (h : op.apply? type x y = some z) : z.Sized (n + m) := by
  cases op with
  | add => exact Option.some.inj h ▸ hx.add hy
  | subtract => exact Option.some.inj h ▸ hx.sub hy
  | multiply => exact Option.some.inj h ▸ hx.mul hy
  | divide => exact hx.div hy (Scalar.short_quotientRounding storable) h
  | remainder => exact hx.rem hy h

theorem Sign.apply_sized (sign : Sign) (type : Ty) {n : ℕ} {x : Decimal} (h : x.Sized n) :
    ∃ y, sign.apply ⟨type, some (.number x)⟩ = ⟨type, some (.number y)⟩ ∧ y.Sized n := by
  cases sign with
  | plus => exact ⟨x, rfl, h⟩
  | minus => exact ⟨-x, rfl, h.neg⟩

/-- Every variable has a number of its type, which has size one. -/
def Symbols.Sized (s : Symbols) : Prop :=
  ∀ v ∈ s.vars, ∃ x, v.valuation = ⟨.scalar v.type, some (.number x)⟩ ∧ x.Sized 1

theorem Symbols.Sized.of_get? {s : Symbols} (h : s.Sized) {name : String} {symbol : Symbol}
    {type : Scalar} (found : s.get? name = some symbol) (typed : symbol.type = .scalar type) :
    ∃ x, symbol.valuation = ⟨.scalar type, some (.number x)⟩ ∧ x.Sized 1 := by
  cases symbol with
  | builtin t => contradiction
  | declared v =>
    obtain rfl := Ty.scalar.inj typed
    exact h v (mem_of_get? found)

namespace Scope

variable {s : Scope} {type : Scalar}

/-- The size of a result is the number of leaves, whatever the variables were computed from. -/
theorem eval_sized (sized : s.symbols.Sized) (storable : type.isStorable = true) {e : Expr}
    {a : Annotated} (h : (s.eval (.scalar type) e).result = some a) :
    ∃ x, a.valuation = ⟨.scalar type, some (.number x)⟩ ∧ x.Sized e.leaves := by
  induction e generalizing a with
  | literal n span =>
    obtain ⟨x, hx, fits, rfl⟩ := eval_literal_eq_some.1 h
    exact ⟨x, rfl, Scalar.sized_of_misfit? storable (Decimal.isNormal_ofDigits hx) fits⟩
  | access name =>
    obtain ⟨symbol, found, typed, rfl⟩ := eval_access_eq_some.1 h
    exact sized.of_get? found typed
  | group opening inner closing ih =>
    obtain ⟨i, hi, rfl⟩ := eval_group_eq_some.1 h
    obtain ⟨x, hx, size⟩ := ih hi
    exact ⟨x, hx, size⟩
  | unary sign signSpan operand ih =>
    obtain ⟨o, ho, -, rfl⟩ := eval_unary_eq_some.1 h
    obtain ⟨x, hx, size⟩ := ih ho
    obtain ⟨y, hy, size⟩ := sign.apply_sized (.scalar type) size
    exact ⟨y, (congrArg sign.apply hx).trans hy, size⟩
  | binary op opSpan left right ihl ihr =>
    obtain ⟨l, r, hl, hr, ho⟩ := eval_binary_eq_some.1 h
    obtain ⟨x, hx, left_size⟩ := ihl hl
    obtain ⟨y, hy, right_size⟩ := ihr hr
    obtain ⟨z, hz, rfl⟩ := (evalOperation_eq_some (Annotated.number?_of_valuation hx)
      (Annotated.number?_of_valuation hy)).1 ho
    exact ⟨z, rfl, Operator.sized_apply? storable left_size right_size hz⟩

/-- A variable is bound to its type, and so starts over at size one. -/
theorem define_sized (sized : s.symbols.Sized) {d : Definition} {v : Variable}
    (h : (s.define d).result = some v) :
    ∃ x, v.valuation = ⟨.scalar v.type, some (.number x)⟩ ∧ x.Sized 1 := by
  obtain ⟨-, -, -, -, storable, value, stored⟩ := define_eq_some.1 h
  obtain ⟨x, hx, size⟩ := eval_sized sized storable value
  obtain ⟨y, bound, stores⟩ := (store_eq_some (Annotated.number?_of_valuation hx)).1 stored
  exact ⟨y, by rw [stores, hx], Scalar.sized_of_misfit? storable
    (Scalar.isNormal_of_bind size.normal bound) (Scalar.misfit?_of_bind bound)⟩

end Scope

theorem Symbols.inductive_sized : Symbols.Inductive Symbols.Sized where
  empty v mem := nomatch mem
  insert {s d v} h hv := by
    intro w mem
    rcases List.mem_append.1 mem with mem | mem
    · exact h w mem
    · obtain rfl := List.mem_singleton.1 mem
      exact Scope.define_sized h hv

end ConstLang
