import ConstLang.Evaluation

/-!
# Successful evaluations

What is known when an expression, or a definition, was evaluated: one lemma for each form of
expression, and `Scope.define_eq_some` for definitions. Proofs about evaluation start from these
lemmas and need not open the evaluator.
-/

namespace ConstLang

theorem Annotated.number?_of_valuation {a : Annotated} {type : Ty} {x : Decimal}
    (h : a.valuation = ⟨type, some (.number x)⟩) : a.number? = some x := by
  rw [number?, h]
  rfl

namespace Scope

variable {s : Scope} {expected : Ty} {type : Scalar} {a : Annotated}

theorem eval_literal_eq_some {n : Numeral} {span : Span} :
    (s.eval (.scalar type) (.literal n span)).result = some a ↔
      ∃ x, n.value? = some x ∧ type.misfit? x = none ∧
        a = .leaf span ⟨.scalar type, some (.number x)⟩ := by
  unfold eval evalLiteral
  cases hx : n.value? with
  | none => simp
  | some x => cases hm : type.misfit? x <;> simp [hm, eq_comm]

theorem eval_access_eq_some {name : Name} :
    (s.eval expected (.access name)).result = some a ↔
      ∃ symbol, s.resolved? name.text = some symbol ∧ symbol.type = expected ∧
        a = .leaf name.span symbol.valuation := by
  unfold eval evalName
  cases hs : s.resolved? name.text with
  | none => cases s.pending? name.text <;> simp
  | some symbol =>
    by_cases ht : symbol.type = expected
    · simp [ht, eq_comm]
    · simp [ht]

theorem eval_group_eq_some {opening closing : Span} {inner : Expr} :
    (s.eval expected (.group opening inner closing)).result = some a ↔
      ∃ i, (s.eval expected inner).result = some i ∧
        a = .one (opening.cover closing) i.valuation i := by
  rw [eval, Checked.result_bind_eq_some]
  simp [Expr.span, eq_comm]

theorem eval_unary_eq_some {sign : Sign} {signSpan : Span} {operand : Expr} :
    (s.eval expected (.unary sign signSpan operand)).result = some a ↔
      ∃ o, (s.eval expected operand).result = some o ∧ o.valuation.type ≠ .metatype ∧
        a = .one (signSpan.cover operand.span) (sign.apply o.valuation) o := by
  rw [eval, Checked.result_bind_eq_some]
  refine exists_congr fun o => and_congr_right fun _ => ?_
  cases o.valuation.type <;> simp [Expr.span, eq_comm]

theorem eval_binary_eq_some {op : Operator} {opSpan : Span} {left right : Expr} :
    (s.eval (.scalar type) (.binary op opSpan left right)).result = some a ↔
      ∃ l r, (s.eval (.scalar type) left).result = some l ∧
        (s.eval (.scalar type) right).result = some r ∧
        (evalOperation op type (left.span.cover right.span) l r).result = some a := by
  rw [eval, Checked.result_bind_eq_some]
  simp only [Prod.exists, Checked.result_both_eq_some, Expr.span, and_assoc]

/-- An operation on known numbers comes to a known number. -/
theorem evalOperation_eq_some {op : Operator} {span : Span} {left right : Annotated}
    {x y : Decimal} (hx : left.number? = some x) (hy : right.number? = some y) :
    (evalOperation op type span left right).result = some a ↔
      ∃ z, op.apply? type x y = some z ∧
        a = .two span ⟨.scalar type, some (.number z)⟩ left right := by
  rw [evalOperation, hx, hy]
  cases hz : op.apply? type x y <;> simp [hz, eq_comm]

theorem declaredType_eq_some {name : Name} :
    (declaredType name a).result = some type ↔
      a.valuation.type? = some (.scalar type) ∧ type.isStorable = true := by
  unfold declaredType
  cases ht : a.valuation.type? with
  | none => simp
  | some t =>
    cases t with
    | metatype => simp
    | scalar t =>
      simp only [Option.some.injEq, Ty.scalar.injEq]
      split
      · next storable => exact ⟨fun h => by cases h; exact ⟨rfl, storable⟩, fun h => h.1 ▸ rfl⟩
      · next storable => simp only [Checked.result_fail, reduceCtorEq, false_iff]; grind

theorem store_eq_some {x : Decimal} {valuation : Valuation} (hx : a.number? = some x) :
    (store type a).result = some valuation ↔
      ∃ stored, type.bind x = .ok stored ∧
        valuation = ⟨a.valuation.type, some (.number stored)⟩ := by
  rw [store, hx]
  cases hb : type.bind x <;> simp [hb, eq_comm]

/-- The steps that give a definition its variable. -/
theorem define_eq_some {d : Definition} {v : Variable} :
    (s.define d).result = some v ↔
      v.name = d.name ∧ v.expr = d.value ∧
        (s.eval .metatype d.type).result = some v.declared ∧
        v.declared.valuation.type? = some (.scalar v.type) ∧ v.type.isStorable = true ∧
        (s.eval (.scalar v.type) d.value).result = some v.value ∧
        (store v.type v.value).result = some v.valuation := by
  unfold define
  simp only [Checked.result_bind_eq_some, declaredType_eq_some, Checked.result_ok,
    Option.some.injEq]
  constructor
  · rintro ⟨declared, hd, type, ⟨ht, storable⟩, value, hv, valuation, hs, rfl⟩
    exact ⟨rfl, rfl, hd, ht, storable, hv, hs⟩
  · obtain ⟨name, type, declared, expr, value, valuation⟩ := v
    rintro ⟨rfl, rfl, hd, ht, storable, hv, hs⟩
    exact ⟨declared, hd, type, ⟨ht, storable⟩, value, hv, valuation, hs, rfl⟩

end Scope

end ConstLang
