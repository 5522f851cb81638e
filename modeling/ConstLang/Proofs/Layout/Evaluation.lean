import ConstLang.Proofs.Layout.Program
import ConstLang.Evaluation

/-!
# Evaluation does not depend on places

Moving an expression moves the tree that it is evaluated to and the issues that come up. The types
and the values stay, and so does the shape of the tree: no step of the evaluation looks at a span.
-/

namespace ConstLang

variable (o : Span)

/-! ## Symbols -/

namespace Annotated

def moved : Annotated → Annotated
  | leaf _ v => leaf o v
  | one _ v operand => one o v operand.moved
  | two _ v left right => two o v left.moved right.moved

@[simp] theorem span_moved (a : Annotated) : (a.moved o).span = o := by
  cases a <;> rfl

@[simp] theorem valuation_moved (a : Annotated) : (a.moved o).valuation = a.valuation := by
  cases a <;> rfl

@[simp] theorem number?_moved (a : Annotated) : (a.moved o).number? = a.number? := by
  rw [number?, valuation_moved, number?]

end Annotated

def Variable.moved (v : Variable) : Variable :=
  ⟨v.name.moved o, v.type, v.declared.moved o, v.expr.moved o, v.value.moved o, v.valuation⟩

@[simp] theorem Variable.text_moved (v : Variable) : (v.moved o).name.text = v.name.text := rfl

def Symbol.moved : Symbol → Symbol
  | builtin s => builtin s
  | declared v => declared (v.moved o)

@[simp] theorem Symbol.type_moved (s : Symbol) : (s.moved o).type = s.type := by
  cases s <;> rfl

@[simp] theorem Symbol.valuation_moved (s : Symbol) : (s.moved o).valuation = s.valuation := by
  cases s <;> rfl

def Symbols.moved (s : Symbols) : Symbols := ⟨s.vars.map (Variable.moved o)⟩

def Scope.moved (s : Scope) : Scope :=
  ⟨s.symbols.moved o, s.pending.map (Definition.moved o), s.queue⟩

theorem Scope.resolved?_moved (s : Scope) (name : String) :
    (s.moved o).resolved? name = (s.resolved? name).map (Symbol.moved o) := by
  change Symbols.get? ⟨s.symbols.vars.map (Variable.moved o)⟩ name = (s.symbols.get? name).map _
  rw [Symbols.get?, Symbols.get?, List.find?_map]
  cases Scalar.ofName? name with
  | some builtin => rfl
  | none =>
    simp only [Option.map_map]
    rfl

theorem Scope.pending?_moved (s : Scope) (name : String) :
    (s.moved o).pending? name = (s.pending? name).map (Definition.moved o) :=
  List.find?_map ..

/-! ## Issues -/

def Issue.moved : Issue → Issue
  | builtinName name => builtinName (name.moved o)
  | redeclared name earlier => redeclared (name.moved o) (earlier.moved o)
  | numberAsType n _ => numberAsType n o
  | exponentOutOfRange n _ => exponentOutOfRange n o
  | literalMisfit n _ type misfit => literalMisfit n o type misfit
  | mismatch name actual expected => mismatch (name.moved o) actual expected
  | notYetResolved name later => notYetResolved (name.moved o) (later.moved o)
  | undefinedName name => undefinedName (name.moved o)
  | signedType sign _ type => signedType sign o type
  | operationAsType op _ expected => operationAsType op o expected
  | divisionByZero _ => divisionByZero o
  | metatypeVariable name _ => metatypeVariable (name.moved o) o
  | unknownType name _ => unknownType (name.moved o) o
  | unstorableType name type _ => unstorableType (name.moved o) type o
  | valueMisfit x _ type misfit => valueMisfit x o type misfit
  | rounded x stored _ type => rounded x stored o type

namespace Checked

variable {α β : Type}

/-- An outcome once it is moved, where `f` moves the result. -/
def moved (f : α → α) (x : Checked α) : Checked α := ⟨x.result.map f, x.issues.map (Issue.moved o)⟩

@[simp] theorem result_moved (f : α → α) (x : Checked α) :
    (x.moved o f).result = x.result.map f := rfl

@[simp] theorem issues_moved (f : α → α) (x : Checked α) :
    (x.moved o f).issues = x.issues.map (Issue.moved o) := rfl

variable {o}

theorem bind_moved {f : α → α} {g : β → β} {x y : Checked α} {next next' : α → Checked β}
    (outcome : y = x.moved o f) (step : ∀ a, next' (f a) = (next a).moved o g) :
    y >>= next' = (x >>= next).moved o g := by
  subst outcome
  obtain ⟨result, issues⟩ := x
  cases result with
  | none => rfl
  | some a =>
    change Checked.mk (next' (f a)).result (issues.map _ ++ (next' (f a)).issues) =
      moved o g ⟨(next a).result, issues ++ (next a).issues⟩
    rw [step, moved, moved, List.map_append]

theorem both_moved {f : α → α} {g : β → β} (x : Checked α) (y : Checked β) :
    (x.moved o f).both (y.moved o g) = (x.both y).moved o (Prod.map f g) := by
  obtain ⟨result, issues⟩ := x
  obtain ⟨others, more⟩ := y
  rw [both, both, moved, moved, moved, List.map_append]
  cases result <;> cases others <;> rfl

end Checked

/-! ## Evaluation -/

namespace Scope

theorem evalOperation_moved (op : Operator) (type : Scalar) (span : Span)
    (left right : Annotated) :
    evalOperation op type o (left.moved o) (right.moved o) =
      (evalOperation op type span left right).moved o (Annotated.moved o) := by
  rw [evalOperation, evalOperation, Annotated.number?_moved, Annotated.number?_moved]
  cases left.number? with
  | none => rfl
  | some x =>
    cases right.number? with
    | none => rfl
    | some y =>
      dsimp only
      rw [Annotated.span_moved]
      split <;> rfl

theorem eval_moved (s : Scope) (expected : Ty) (e : Expr) :
    (s.moved o).eval expected (e.moved o) = (s.eval expected e).moved o (Annotated.moved o) := by
  induction e generalizing expected with
  | literal n span =>
    rw [Expr.moved, eval, eval]
    cases expected with
    | metatype => rfl
    | scalar type =>
      unfold evalLiteral
      cases n.value? with
      | none => rfl
      | some x =>
        dsimp only
        split <;> rfl
  | access name =>
    rw [Expr.moved, eval, eval, evalName, evalName, Name.moved, resolved?_moved]
    dsimp only
    cases s.resolved? name.text with
    | some symbol =>
      rw [Option.map_some]
      dsimp only
      rw [Symbol.type_moved, Symbol.valuation_moved]
      split <;> rfl
    | none =>
      rw [Option.map_none, pending?_moved]
      cases s.pending? name.text <;> rfl
  | group opening inner closing ih =>
    have span := Expr.span_moved o (.group opening inner closing)
    rw [Expr.moved] at span ⊢
    rw [eval, eval, span]
    refine Checked.bind_moved (ih expected) fun i => ?_
    rw [Annotated.valuation_moved]
    rfl
  | unary sign signSpan operand ih =>
    have span := Expr.span_moved o (.unary sign signSpan operand)
    rw [Expr.moved] at span ⊢
    rw [eval, eval, span]
    refine Checked.bind_moved (ih expected) fun i => ?_
    rw [Annotated.valuation_moved]
    split <;> rfl
  | binary op opSpan left right ihl ihr =>
    have span := Expr.span_moved o (.binary op opSpan left right)
    rw [Expr.moved] at span ⊢
    cases expected with
    | metatype =>
      rw [eval, eval, span]
      rfl
    | scalar type =>
      rw [eval, eval, span, ihl, ihr, Checked.both_moved]
      exact Checked.bind_moved rfl fun both => evalOperation_moved o op type _ both.1 both.2

theorem declaredType_moved (name : Name) (declared : Annotated) :
    declaredType (name.moved o) (declared.moved o) = (declaredType name declared).moved o id := by
  rw [declaredType, declaredType, Annotated.valuation_moved, Annotated.span_moved]
  cases declared.valuation.type? with
  | none => rfl
  | some t =>
    cases t with
    | metatype => rfl
    | scalar type =>
      dsimp only
      split <;> rfl

theorem store_moved (type : Scalar) (value : Annotated) :
    store type (value.moved o) = (store type value).moved o id := by
  rw [store, store, Annotated.number?_moved, Annotated.valuation_moved, Annotated.span_moved]
  cases value.number? with
  | none => rfl
  | some x =>
    dsimp only
    cases type.bind x with
    | error misfit => rfl
    | ok stored =>
      dsimp only
      split <;> rfl

theorem define_moved (s : Scope) (d : Definition) :
    (s.moved o).define (d.moved o) = (s.define d).moved o (Variable.moved o) := by
  refine Checked.bind_moved (eval_moved o s _ d.type) fun declared => ?_
  refine Checked.bind_moved (declaredType_moved o d.name declared) fun type => ?_
  refine Checked.bind_moved (eval_moved o s _ d.value) fun value => ?_
  exact Checked.bind_moved (store_moved o type value) fun valuation => rfl

end Scope

end ConstLang
