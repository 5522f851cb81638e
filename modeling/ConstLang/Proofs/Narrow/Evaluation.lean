import ConstLang.Narrow.Resolution
import ConstLang.Proofs.Narrow.Literal
import ConstLang.Proofs.Program.Node

/-!
# Narrow exponents suffice for evaluation

An expression that is not too large, in a scope whose variables have size one, comes to the same
with narrow exponents, be it a number or an issue: every number on the way has the size of a part
of the expression. So do definitions.
-/

namespace ConstLang.Narrow

/-- What is known of a result may be used in what goes on with it. -/
theorem follow_eq {α β : Type} {x : Checked α} {f : α → Except Overflow (Checked β)}
    {g : α → Checked β} (h : ∀ a, x.result = some a → f a = .ok (g a)) :
    follow x f = .ok (x >>= g) := by
  change _ = Except.ok (x.bind g)
  unfold follow Checked.bind
  cases result : x.result with
  | none => rfl
  | some a =>
    dsimp only
    rw [h a result]
    rfl

/-- An expression whose numbers leave room: it has few leaves, and no literal is so long that the
number of its digits has no word. -/
structure Modest (e : Expr) : Prop where
  few : e.leaves + 1 < room
  short : ∀ t ∈ e.tokens, t.lexeme.chars.length ≤ 2 ^ 63

theorem Modest.operand {e operand : Expr} (h : Modest e) (mem : operand ∈ e.operands) :
    Modest operand := by
  obtain ⟨few, short⟩ := h
  cases e with
  | literal n span | access name => contradiction
  | group opening inner closing =>
    obtain rfl := List.mem_singleton.1 mem
    exact ⟨few, fun t ht => short t (by simp [Expr.tokens, ht])⟩
  | unary sign span inner =>
    obtain rfl := List.mem_singleton.1 mem
    exact ⟨few, fun t ht => short t (by simp [Expr.tokens, ht])⟩
  | binary op span left right =>
    rw [Expr.leaves] at few
    rcases List.mem_pair.1 mem with rfl | rfl
    · exact ⟨by omega, fun t ht => short t (by simp [Expr.tokens, ht])⟩
    · exact ⟨by omega, fun t ht => short t (by simp [Expr.tokens, ht])⟩

variable {s : Scope} {type : Scalar}

/-! ## Evaluation -/

theorem evalLiteral_eq {n : Numeral} (short : n.chars.length ≤ 2 ^ 63) (span : Span)
    (type : Scalar) :
    evalLiteral n span (.scalar type) = .ok (Scope.evalLiteral n span (.scalar type)) := by
  unfold evalLiteral Scope.evalLiteral
  dsimp only
  rw [value?_eq, ok_bind]
  cases read : n.value? with
  | none => rfl
  | some x =>
    dsimp only
    rw [misfit?_eq (leading_eq_of_value? read short), ok_bind]
    cases type.misfit? x <;> rfl

theorem evalOperation_eq (op : Operator) (storable : type.isStorable = true) (span : Span)
    {left right : Annotated} {x y : Decimal} {n m : ℕ} (hl : left.number? = some x)
    (hr : right.number? = some y) (hx : x.Sized n) (hy : y.Sized m) (small : n + m + 1 < room) :
    evalOperation op type span left right =
      .ok (Scope.evalOperation op type span left right) := by
  unfold evalOperation Scope.evalOperation
  rw [hl, hr]
  dsimp only
  rw [operate?_eq op storable hx hy small, ok_bind]
  cases op.apply? type x y <;> rfl

/-- Where a type is expected, no literal is read and no operation is computed. -/
theorem eval_metatype_eq (s : Scope) (e : Expr) :
    eval s .metatype e = .ok (s.eval .metatype e) := by
  induction e with
  | literal n span | access name => rfl
  | group opening inner closing ih =>
    rw [eval, ih, ok_bind]
    exact follow_eq fun i _ => rfl
  | unary sign signSpan operand ih =>
    rw [eval, ih, ok_bind]
    exact follow_eq fun o _ => by cases o.valuation.type <;> rfl
  | binary op opSpan left right => rfl

theorem eval_eq (sized : s.symbols.Sized) (storable : type.isStorable = true) {e : Expr}
    (modest : Modest e) : eval s (.scalar type) e = .ok (s.eval (.scalar type) e) := by
  induction e with
  | literal n span => exact evalLiteral_eq (modest.short _ List.mem_cons_self) span type
  | access name => rfl
  | group opening inner closing ih =>
    rw [eval, ih (modest.operand List.mem_cons_self), ok_bind]
    exact follow_eq fun i _ => rfl
  | unary sign signSpan operand ih =>
    rw [eval, ih (modest.operand List.mem_cons_self), ok_bind]
    exact follow_eq fun o _ => by cases o.valuation.type <;> rfl
  | binary op opSpan left right ihl ihr =>
    rw [eval, ihl (modest.operand List.mem_cons_self), ok_bind,
      ihr (modest.operand (List.mem_cons_of_mem _ List.mem_cons_self)), ok_bind]
    refine follow_eq fun (l, r) both => ?_
    obtain ⟨hl, hr⟩ := Checked.result_both_eq_some.1 both
    obtain ⟨x, hx, left_size⟩ := Scope.eval_sized sized storable hl
    obtain ⟨y, hy, right_size⟩ := Scope.eval_sized sized storable hr
    exact evalOperation_eq op storable _ (Annotated.number?_of_valuation hx)
      (Annotated.number?_of_valuation hy) left_size right_size modest.few

/-! ## Definitions -/

theorem store_eq {value : Annotated} {x : Decimal} {n : ℕ} (hv : value.number? = some x)
    (hx : x.Sized n) (small : n < room) :
    store type value = .ok (Scope.store type value) := by
  unfold store Scope.store
  rw [hv]
  dsimp only
  rw [bind_eq hx small, ok_bind]
  cases type.bind x <;> rfl

theorem define_eq (sized : s.symbols.Sized) {d : Definition} (modest : Modest d.value) :
    define s d = .ok (s.define d) := by
  rw [define, eval_metatype_eq, ok_bind]
  refine follow_eq fun declared _ => follow_eq fun type accepted => ?_
  obtain ⟨-, storable⟩ := Scope.declaredType_eq_some.1 accepted
  rw [eval_eq sized storable modest, ok_bind]
  refine follow_eq fun value evaluated => ?_
  obtain ⟨x, hx, size⟩ := Scope.eval_sized sized storable evaluated
  have few := modest.few
  rw [store_eq (Annotated.number?_of_valuation hx) size (by omega), ok_bind]
  exact follow_eq fun valuation _ => rfl

end ConstLang.Narrow
