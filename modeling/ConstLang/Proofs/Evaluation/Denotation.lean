import ConstLang.Proofs.Decimal.Rounding
import ConstLang.Proofs.Evaluation.Success
import ConstLang.Proofs.Numeral
import ConstLang.Resolution

/-!
# The number that an expression denotes

An expression denotes a rational number, given the numbers of the names in it. The denotation knows
nothing of decimals: a literal denotes what is written, and only a quotient is rounded, as the type
has it. `Scope.eval_denotes` says that evaluation finds exactly that number.
-/

namespace ConstLang

open Rational

/-- What a sign makes of a number. -/
def Sign.onRat : Sign → ℚ → ℚ
  | plus, x => x
  | minus, x => -x

/-- The rounding of a quotient: to an integer, or to the digits of the type. -/
def Scalar.roundQuotient : Scalar → ℚ → ℚ
  | f4, q => toDigits 7 q
  | f8, q => toDigits 16 q
  | rinf, q => toDigits 34 q
  | _, q => nearest q

/-- An operation on rational numbers, where quotients are rounded for a type. -/
def Operator.onRat? (op : Operator) (type : Scalar) (x y : ℚ) : Option ℚ :=
  match op with
  | add => some (x + y)
  | subtract => some (x - y)
  | multiply => some (x * y)
  | divide => if y = 0 then none else some (type.roundQuotient (x / y))
  | remainder => if y = 0 then none else some (x - y * cut (x / y))

/-- The number that an expression denotes where a type is expected of it. -/
def Expr.denote? (constants : String → Option ℚ) (type : Scalar) : Expr → Option ℚ
  | literal n _ => some n.toRat
  | access name => constants name.text
  | group _ inner _ => inner.denote? constants type
  | unary sign _ operand => (operand.denote? constants type).map sign.onRat
  | binary op _ left right => do
    op.onRat? type (← left.denote? constants type) (← right.denote? constants type)

/-- The number that is stored for a variable. -/
def Symbols.constant? (s : Symbols) (name : String) : Option ℚ :=
  (s.declared? name).bind fun v => v.valuation.number?.map Decimal.toRat

/-- Every variable has a number of its type. -/
def Symbols.Known (s : Symbols) : Prop :=
  ∀ v ∈ s.vars, ∃ x, v.valuation = ⟨.scalar v.type, some (.number x)⟩

/-! ## Operations -/

theorem Scalar.apply_quotientRounding (type : Scalar) (q : ℚ) :
    type.quotientRounding.apply q = type.roundQuotient q := by
  have whole : toPlaces 0 q = nearest q := by simp [toPlaces]
  cases type <;> first | rfl | exact whole

theorem Scalar.inWord_quotientRounding (type : Scalar) : type.quotientRounding.InWord := by
  cases type <;> trivial

theorem Operator.onRat?_toRat {op : Operator} {type : Scalar} {x y z : Decimal}
    (h : op.apply? type x y = some z) : op.onRat? type x.toRat y.toRat = some z.toRat := by
  cases op with
  | add =>
    obtain rfl := Option.some.inj h
    exact congrArg some (Decimal.toRat_add x y).symm
  | subtract =>
    obtain rfl := Option.some.inj h
    exact congrArg some (Decimal.toRat_sub x y).symm
  | multiply =>
    obtain rfl := Option.some.inj h
    exact congrArg some (Decimal.toRat_mul x y).symm
  | divide =>
    obtain ⟨nonzero, hz⟩ := Decimal.toRat_div? type.inWord_quotientRounding h
    rw [onRat?, if_neg nonzero, hz, type.apply_quotientRounding]
  | remainder =>
    obtain ⟨nonzero, hz⟩ := Decimal.toRat_rem? h
    rw [onRat?, if_neg nonzero, hz]

/-- A sign changes a known number as it changes a rational one, and keeps the type. -/
theorem Sign.apply_number (sign : Sign) (type : Ty) (x : Decimal) :
    ∃ y, sign.apply ⟨type, some (.number x)⟩ = ⟨type, some (.number y)⟩ ∧
      y.toRat = sign.onRat x.toRat := by
  cases sign with
  | plus => exact ⟨x, rfl, rfl⟩
  | minus => exact ⟨-x, rfl, Decimal.toRat_neg x⟩

/-! ## Names -/

theorem Symbols.mem_of_get? {s : Symbols} {name : String} {v : Variable}
    (h : s.get? name = some (.declared v)) : v ∈ s.vars := by
  unfold get? at h
  split at h
  · simp at h
  · obtain ⟨w, hw, same⟩ := Option.map_eq_some_iff.1 h
    obtain rfl := Symbol.declared.inj same
    exact List.mem_of_find?_eq_some hw

/-- A name that has the type of a number has a number. -/
theorem Symbols.Known.constant?_eq_some {s : Symbols} (known : s.Known) {name : String}
    {symbol : Symbol} {type : Scalar} (h : s.get? name = some symbol)
    (ht : symbol.type = .scalar type) :
    ∃ x, symbol.valuation = ⟨.scalar type, some (.number x)⟩ ∧
      s.constant? name = some x.toRat := by
  cases symbol with
  | builtin t => contradiction
  | declared v =>
    obtain ⟨x, hx⟩ := known v (mem_of_get? h)
    obtain rfl := Ty.scalar.inj ht
    exact ⟨x, hx, by simp [constant?, declared?, h, hx, Valuation.number?]⟩

/-! ## Evaluation -/

namespace Scope

/-- An expression that is evaluated comes to a known number, the one that it denotes. -/
theorem eval_denotes {s : Scope} (known : s.symbols.Known) {type : Scalar} {e : Expr}
    {a : Annotated} (h : (s.eval (.scalar type) e).result = some a) :
    ∃ x, a.valuation = ⟨.scalar type, some (.number x)⟩ ∧
      e.denote? s.symbols.constant? type = some x.toRat := by
  induction e generalizing a with
  | literal n span =>
    obtain ⟨x, hx, -, rfl⟩ := eval_literal_eq_some.1 h
    exact ⟨x, rfl, congrArg some (Numeral.toRat_of_value? hx).symm⟩
  | access name =>
    obtain ⟨symbol, hs, ht, rfl⟩ := eval_access_eq_some.1 h
    exact known.constant?_eq_some hs ht
  | group opening inner closing ih =>
    obtain ⟨i, hi, rfl⟩ := eval_group_eq_some.1 h
    obtain ⟨x, hx, denoted⟩ := ih hi
    exact ⟨x, hx, denoted⟩
  | unary sign signSpan operand ih =>
    obtain ⟨o, ho, -, rfl⟩ := eval_unary_eq_some.1 h
    obtain ⟨x, hx, denoted⟩ := ih ho
    obtain ⟨y, hy, value⟩ := sign.apply_number (.scalar type) x
    exact ⟨y, (congrArg sign.apply hx).trans hy, by rw [Expr.denote?, denoted, value]; rfl⟩
  | binary op opSpan left right ihl ihr =>
    obtain ⟨l, r, hl, hr, ho⟩ := eval_binary_eq_some.1 h
    obtain ⟨x, hx, left_denoted⟩ := ihl hl
    obtain ⟨y, hy, right_denoted⟩ := ihr hr
    have left_number : l.number? = some x := by simp [Annotated.number?, hx, Valuation.number?]
    have right_number : r.number? = some y := by simp [Annotated.number?, hy, Valuation.number?]
    obtain ⟨z, hz, rfl⟩ := (evalOperation_eq_some left_number right_number).1 ho
    refine ⟨z, rfl, ?_⟩
    rw [Expr.denote?, left_denoted, right_denoted]
    exact Operator.onRat?_toRat hz

end Scope

end ConstLang
