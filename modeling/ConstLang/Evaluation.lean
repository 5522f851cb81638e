import ConstLang.Issue
import ConstLang.Scope

/-!
# Evaluation

An expression is evaluated where a type is expected of it. Literals and names are held to that
type, and operations on known numbers are computed exactly, apart from quotients, which are
rounded as the type has it. The value of a definition is then stored in its type.
-/

namespace ConstLang

/-- A result, if there is one, with the issues that came up. -/
structure Checked (α : Type) where
  result : Option α
  issues : List Issue

namespace Checked

def ok {α : Type} (a : α) : Checked α := ⟨some a, []⟩

def fail {α : Type} (i : Issue) : Checked α := ⟨none, [i]⟩

/-- Goes on with a result; without one the issues are kept. -/
def bind {α β : Type} (x : Checked α) (f : α → Checked β) : Checked β :=
  match x.result with
  | none => ⟨none, x.issues⟩
  | some a => ⟨(f a).result, x.issues ++ (f a).issues⟩

instance : Monad Checked where
  pure := ok
  bind := bind

/-- Both results, with the issues of both even if one of them is missing. -/
def both {α β : Type} (x : Checked α) (y : Checked β) : Checked (α × β) :=
  ⟨x.result.bind fun a => y.result.map fun b => (a, b), x.issues ++ y.issues⟩

@[simp] theorem result_ok {α : Type} (a : α) : (ok a).result = some a := rfl

@[simp] theorem result_fail {α : Type} (i : Issue) : (fail i : Checked α).result = none := rfl

/-- Steps in a row have a result if each of them has one. -/
theorem result_bind_eq_some {α β : Type} {x : Checked α} {f : α → Checked β} {b : β} :
    (x >>= f).result = some b ↔ ∃ a, x.result = some a ∧ (f a).result = some b := by
  change (x.bind f).result = some b ↔ _
  unfold Checked.bind
  cases x.result <;> simp

theorem result_both_eq_some {α β : Type} {x : Checked α} {y : Checked β} {a : α} {b : β} :
    (x.both y).result = some (a, b) ↔ x.result = some a ∧ y.result = some b := by
  simp [both, Option.bind_eq_some_iff]

end Checked

/-- The result of an operation on numbers; there is none for a division by zero. -/
def Operator.apply? (op : Operator) (type : Scalar) (x y : Decimal) : Option Decimal :=
  match op with
  | add => some (x + y)
  | subtract => some (x - y)
  | multiply => some (x * y)
  | divide => x.div? y type.quotientRounding
  | remainder => x.rem? y

/-- What a sign makes of an operand. -/
def Sign.apply (sign : Sign) (v : Valuation) : Valuation :=
  match sign with
  | plus => v
  | minus => ⟨v.type, v.number?.map fun x => .number (-x)⟩

namespace Scope

/-- The value of a literal, which has to fit the type as it is. -/
def evalLiteral (n : Numeral) (span : Span) (expected : Ty) : Checked Annotated :=
  match expected with
  | .metatype => .fail (.numberAsType n span)
  | .scalar type =>
    match n.value? with
    | none => .fail (.exponentOutOfRange n span)
    | some x =>
      match type.misfit? x with
      | some misfit => .fail (.literalMisfit n span type misfit)
      | none => .ok (.leaf span ⟨expected, some (.number x)⟩)

/-- The value of a name, which has to have a symbol of the type. -/
def evalName (s : Scope) (name : Name) (expected : Ty) : Checked Annotated :=
  match s.resolved? name.text with
  | some symbol =>
    if symbol.type = expected then .ok (.leaf name.span symbol.valuation)
    else .fail (.mismatch name symbol.type expected)
  | none =>
    match s.pending? name.text with
    | some later => .fail (.notYetResolved name later.name)
    | none => .fail (.undefinedName name)

/-- The value of an operation on two operands that were evaluated. -/
def evalOperation (op : Operator) (type : Scalar) (span : Span) (left right : Annotated) :
    Checked Annotated :=
  match left.number?, right.number? with
  | some x, some y =>
    match op.apply? type x y with
    | some z => .ok (.two span ⟨.scalar type, some (.number z)⟩ left right)
    | none => .fail (.divisionByZero right.span)
  | _, _ => .ok (.two span ⟨.scalar type, none⟩ left right)

/-- Evaluates an expression where a value of a type is expected. -/
def eval (s : Scope) (expected : Ty) (e : Expr) : Checked Annotated :=
  match e with
  | .literal n span => evalLiteral n span expected
  | .access name => s.evalName name expected
  | .group _ inner _ => do
    let inner ← s.eval expected inner
    .ok (.one e.span inner.valuation inner)
  | .unary sign _ operand => do
    let operand ← s.eval expected operand
    match operand.valuation.type with
    | .metatype => .fail (.signedType sign e.span .metatype)
    | .scalar _ => .ok (.one e.span (sign.apply operand.valuation) operand)
  | .binary op _ left right =>
    match expected with
    | .metatype => .fail (.operationAsType op e.span expected)
    | .scalar type => do
      let (left, right) ← (s.eval expected left).both (s.eval expected right)
      evalOperation op type e.span left right

/-- The scalar type that a definition declares, which has to be one that variables have. -/
def declaredType (name : Name) (declared : Annotated) : Checked Scalar :=
  match declared.valuation.type? with
  | some (.scalar type) =>
    if type.isStorable then .ok type else .fail (.unstorableType name type declared.span)
  | some .metatype => .fail (.metatypeVariable name declared.span)
  | none => .fail (.unknownType name declared.span)

/-- Stores a value in a type. A value that is not known is not stored. -/
def store (type : Scalar) (value : Annotated) : Checked Valuation :=
  match value.number? with
  | none => .ok value.valuation
  | some x =>
    match type.bind x with
    | .error misfit => .fail (.valueMisfit x value.span type misfit)
    | .ok stored =>
      ⟨some { value.valuation with value := some (.number stored) },
        if stored = x then [] else [.rounded x stored value.span type]⟩

/-- The variable of a definition. -/
def define (s : Scope) (d : Definition) : Checked Variable := do
  let declared ← s.eval .metatype d.type
  let type ← declaredType d.name declared
  let value ← s.eval (.scalar type) d.value
  let valuation ← store type value
  .ok ⟨d.name, type, declared, d.value, value, valuation⟩

end Scope

end ConstLang
