import ConstLang.Narrow.Decimal
import ConstLang.Resolution

/-!
# Resolution with narrow exponents

Expressions, definitions and programs once more, on decimals whose exponents are held to a signed
64-bit word. A program that comes to no overflow is resolved as `Program.resolve` has it.
-/

namespace ConstLang.Narrow

/-! ## Evaluation -/

/-- Goes on with a result; without one the issues are kept. -/
def follow {α β : Type} (x : Checked α) (f : α → Except Overflow (Checked β)) :
    Except Overflow (Checked β) :=
  match x.result with
  | none => .ok ⟨none, x.issues⟩
  | some a => (f a).map fun y => ⟨y.result, x.issues ++ y.issues⟩

def evalLiteral (n : Numeral) (span : Span) (expected : Ty) :
    Except Overflow (Checked Annotated) :=
  match expected with
  | .metatype => .ok (.fail (.numberAsType n span))
  | .scalar type => do
    match ← value? n with
    | none => return .fail (.exponentOutOfRange n span)
    | some x =>
      match ← misfit? x type.format with
      | some misfit => return .fail (.literalMisfit n span type misfit)
      | none => return .ok (.leaf span ⟨expected, some (.number x)⟩)

def evalOperation (op : Operator) (type : Scalar) (span : Span) (left right : Annotated) :
    Except Overflow (Checked Annotated) :=
  match left.number?, right.number? with
  | some x, some y => do
    match ← operate? op type x y with
    | some z => return .ok (.two span ⟨.scalar type, some (.number z)⟩ left right)
    | none => return .fail (.divisionByZero right.span)
  | _, _ => .ok (.ok (.two span ⟨.scalar type, none⟩ left right))

def eval (s : Scope) (expected : Ty) (e : Expr) : Except Overflow (Checked Annotated) :=
  match e with
  | .literal n span => evalLiteral n span expected
  | .access name => .ok (s.evalName name expected)
  | .group _ inner _ => do
    let inner ← eval s expected inner
    follow inner fun inner => .ok (.ok (.one e.span inner.valuation inner))
  | .unary sign _ operand => do
    let operand ← eval s expected operand
    follow operand fun operand =>
      match operand.valuation.type with
      | .metatype => .ok (.fail (.signedType sign e.span .metatype))
      | .scalar _ => .ok (.ok (.one e.span (sign.apply operand.valuation) operand))
  | .binary op _ left right =>
    match expected with
    | .metatype => .ok (.fail (.operationAsType op e.span expected))
    | .scalar type => do
      let left ← eval s expected left
      let right ← eval s expected right
      follow (left.both right) fun (left, right) => evalOperation op type e.span left right

def store (type : Scalar) (value : Annotated) : Except Overflow (Checked Valuation) :=
  match value.number? with
  | none => .ok (.ok value.valuation)
  | some x => do
    match ← bind type x with
    | .error misfit => return .fail (.valueMisfit x value.span type misfit)
    | .ok stored =>
      return ⟨some { value.valuation with value := some (.number stored) },
        if stored = x then [] else [.rounded x stored value.span type]⟩

def define (s : Scope) (d : Definition) : Except Overflow (Checked Variable) := do
  let declared ← eval s .metatype d.type
  follow declared fun declared => follow (Scope.declaredType d.name declared) fun type => do
    let value ← eval s (.scalar type) d.value
    follow value fun value => do
      let valuation ← store type value
      follow valuation fun valuation =>
        .ok (.ok ⟨d.name, type, declared, d.value, value, valuation⟩)

/-! ## Resolution -/

/-- Why a resolution ends early: an exponent overflows, or a contract is broken. -/
inductive Halt
  | overflow (overflow : Overflow)
  | fault (fault : Fault)
deriving DecidableEq

/-- Settles a definition, and inserts its variable if it has one. -/
def settle (p : Pass) (d : Definition) : Except Halt Pass := do
  let outcome ← (define p.scope d).mapError .overflow
  let issues := p.issues ++ outcome.issues
  let scope ← (p.scope.settle d.name.text).mapError .fault
  match outcome.result with
  | some v =>
    let scope ← (scope.insert v).mapError .fault
    return { p with scope := scope, issues := issues }
  | none => return ⟨scope, false, issues⟩

/-- Collects the definitions of a program and resolves them. -/
def resolve (p : Program) : Except Halt Resolution := do
  let collected ← (Scope.builtins.collect p.definitions).mapError .fault
  let resolved ← collected.scope.pendingInOrder.foldlM settle (Pass.start collected.scope)
  let symbols ← resolved.scope.finish.mapError .fault
  return ⟨collected.complete && resolved.complete, symbols, collected.issues ++ resolved.issues⟩

end ConstLang.Narrow
