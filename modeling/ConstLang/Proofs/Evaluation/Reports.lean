import ConstLang.Proofs.Decimal.Rounding
import ConstLang.Proofs.Resolution.Origin
import ConstLang.Proofs.Resolution.Rounded

/-!
# What an evaluation reports

An evaluation goes on where it can: both operands of an operation are evaluated, whatever comes of
the other one, and what is wrong with a literal or a name is reported in any case. Operations add
an error of their own only if nothing is wrong with their operands. So the errors of an expression
are those of its nodes, each taken by itself, in the order of the source. `Scope.Fails` says which
of them go wrong, from the literals, the names that have symbols and the numbers that are denoted.
-/

namespace ConstLang

/-! ## The nodes of an expression -/

/-- Whether an expression is a literal or a name. -/
def Expr.isLeaf : Expr → Bool
  | literal _ _ | access _ => true
  | _ => false

/-- The codes of what can be wrong with a literal or with a name. -/
def Expr.leafCodes : Expr → List Code
  | literal _ _ => [.notRepresentable]
  | access _ => [.undefinedName, .typeMismatch, .notYetResolved]
  | _ => []

/-- One error about a literal or a name, with a note behind it if a name is not yet resolved. -/
def Expr.HasOneError (e : Expr) (said : List Diagnostic) : Prop :=
  ∃ code ∈ e.leafCodes, ∃ message notes,
    said = ⟨.error, some code, .resolving, some e.span, message⟩ :: notes ∧
      if code = .notYetResolved then
        ∃ later, notes = [⟨.info, none, .resolving, some later, "defined later here"⟩]
      else notes = []

/-- An expression goes wrong where a number of a type is expected: a literal has no number or one
that the type does not hold, a name has no symbol of the type, or a division of two operands that do
not go wrong is one by zero. -/
def Scope.Fails (s : Scope) (type : Scalar) : Expr → Prop
  | .literal n _ => n.value? = none ∨ ∃ x misfit, n.value? = some x ∧ type.misfit? x = some misfit
  | .access name => ¬ ∃ symbol, s.resolved? name.text = some symbol ∧ symbol.type = .scalar type
  | .group _ inner _ => s.Fails type inner
  | .unary _ _ operand => s.Fails type operand
  | .binary op _ left right => s.Fails type left ∨ s.Fails type right ∨
      (op = .divide ∨ op = .remainder) ∧ right.denote? s.symbols.constant? type = some 0

/-- Whether an operation divides by zero: both operands come to something, and the right one comes
to zero. -/
def Scope.dividesByZero (s : Scope) (type : Scalar) (op : Operator) (left right : Expr) : Bool :=
  (op = .divide || op = .remainder) && (s.eval (.scalar type) left).result.isSome &&
    ((s.eval (.scalar type) right).result.bind Annotated.number?).any Decimal.isZero

/-- The issues of a node by itself. -/
def Scope.issuesAt (s : Scope) (type : Scalar) (node : Expr) : List Issue :=
  match node with
  | .literal _ _ | .access _ => (s.eval (.scalar type) node).issues
  | .binary op _ left right =>
    if s.dividesByZero type op left right then [.divisionByZero right.span] else []
  | .group _ _ _ | .unary _ _ _ => []

/-- What is reported of a node by itself. -/
def Scope.reportsAt (s : Scope) (type : Scalar) (node : Expr) : List Diagnostic :=
  match node with
  | .literal _ _ | .access _ => (s.eval (.scalar type) node).issues.flatMap Issue.diagnostics
  | .binary op _ left right =>
    if s.dividesByZero type op left right then
      [⟨.error, some .divisionByZero, .resolving, some right.span, "division by zero"⟩]
    else []
  | .group _ _ _ | .unary _ _ _ => []

/-! ## Steps -/

theorem Checked.issues_bind {α β : Type} (x : Checked α) (f : α → Checked β) :
    (x >>= f).issues = x.issues ++ x.result.elim [] fun a => (f a).issues := by
  change (x.bind f).issues = _
  unfold Checked.bind
  cases x.result <;> simp

/-- Only a division has no result, and then its divisor is zero. -/
theorem Operator.apply?_eq_none_iff {op : Operator} {type : Scalar} {x y : Decimal} :
    op.apply? type x y = none ↔ (op = .divide ∨ op = .remainder) ∧ y.isZero = true := by
  unfold Operator.apply?
  cases op with
  | divide => simp [Decimal.div?_eq_none_iff, Decimal.isZero_iff]
  | remainder => simp [Decimal.rem?]
  | _ => simp

namespace Scope

variable {s : Scope} {type : Scalar}

/-- An expression comes to something exactly if nothing is reported of it. -/
theorem isSome_eval_iff {expected : Ty} {e : Expr} :
    (s.eval expected e).result.isSome = true ↔ (s.eval expected e).issues = [] := by
  have plain := Checked.compositional_plain.eval s expected e
  have consistent := Checked.compositional_consistent.eval s expected e
  refine consistent.trans ⟨fun roundings => ?_, fun silent => ?_⟩
  · rw [List.eq_nil_iff_forall_not_mem]
    intro i mem
    simpa [plain i mem] using roundings i mem
  · rw [silent]
    exact List.forall_mem_nil _

/-- An operation on two numbers reports a division by zero or nothing. -/
theorem issues_evalOperation {op : Operator} {span : Span} {left right : Annotated} {x y : Decimal}
    (hx : left.number? = some x) (hy : right.number? = some y) :
    (evalOperation op type span left right).issues =
      if (op = .divide ∨ op = .remainder) ∧ y.isZero = true then [.divisionByZero right.span]
      else [] := by
  rw [evalOperation, hx, hy]
  cases hz : op.apply? type x y with
  | none => simp [hz, Operator.apply?_eq_none_iff.1 hz, Checked.fail]
  | some z =>
    have fine : ¬ ((op = .divide ∨ op = .remainder) ∧ y.isZero = true) := by
      intro zero
      have missing : op.apply? type x y = none := Operator.apply?_eq_none_iff.2 zero
      rw [hz] at missing
      contradiction
    simp only [hz, if_neg fine]
    rfl

/-- The divisor of a division that is one by zero denotes zero. -/
theorem dividesByZero_iff (known : s.symbols.Known) {op : Operator} {left right : Expr} :
    s.dividesByZero type op left right = true ↔
      (op = .divide ∨ op = .remainder) ∧ (s.eval (.scalar type) left).result.isSome = true ∧
        (s.eval (.scalar type) right).result.isSome = true ∧
          right.denote? s.symbols.constant? type = some 0 := by
  cases hr : (s.eval (.scalar type) right).result with
  | none => simp [dividesByZero, hr]
  | some r =>
    obtain ⟨y, hy, denoted⟩ := eval_denotes known hr
    simp [dividesByZero, hr, Annotated.number?_of_valuation hy, denoted, Decimal.isZero_iff,
      and_assoc]

/-- An operation on operands that were evaluated comes to something unless it divides by zero. -/
theorem isSome_evalOperation_iff (known : s.symbols.Known) {op : Operator} {span : Span}
    {left right : Expr} {l r : Annotated} (hl : (s.eval (.scalar type) left).result = some l)
    (hr : (s.eval (.scalar type) right).result = some r) :
    (evalOperation op type span l r).result.isSome = true ↔
      ¬ ((op = .divide ∨ op = .remainder) ∧
        right.denote? s.symbols.constant? type = some 0) := by
  obtain ⟨x, hx, -⟩ := eval_denotes known hl
  obtain ⟨y, hy, denoted⟩ := eval_denotes known hr
  have zero : (op = .divide ∨ op = .remainder) ∧ right.denote? s.symbols.constant? type = some 0 ↔
      op.apply? type x y = none := by
    rw [Operator.apply?_eq_none_iff, denoted, Option.some.injEq, Decimal.isZero_iff]
  simp only [Option.isSome_iff_exists, zero, ← Ne.eq_def, Option.ne_none_iff_exists',
    evalOperation_eq_some (Annotated.number?_of_valuation hx) (Annotated.number?_of_valuation hy)]
  exact ⟨fun ⟨_, z, hz, _⟩ => ⟨z, hz⟩, fun ⟨z, hz⟩ => ⟨_, z, hz, rfl⟩⟩

/-- Which expressions come to something. -/
theorem isSome_eval_iff_not_fails (known : s.symbols.Known) {e : Expr} :
    (s.eval (.scalar type) e).result.isSome = true ↔ ¬ s.Fails type e := by
  induction e with
  | literal n span =>
    simp only [Option.isSome_iff_exists, eval_literal_eq_some, Fails]
    cases n.value? with
    | none => simp
    | some x => cases hm : type.misfit? x <;> simp [hm]
  | access name =>
    simp only [Option.isSome_iff_exists, eval_access_eq_some, Fails, not_not]
    exact ⟨fun ⟨_, symbol, found, typed, _⟩ => ⟨symbol, found, typed⟩,
      fun ⟨symbol, found, typed⟩ => ⟨_, symbol, found, typed, rfl⟩⟩
  | group opening inner closing ih =>
    rw [Fails, ← ih]
    simp [Option.isSome_iff_exists, eval_group_eq_some]
  | unary sign signSpan operand ih =>
    rw [Fails, ← ih, Option.isSome_iff_exists, Option.isSome_iff_exists]
    simp only [eval_unary_eq_some]
    constructor
    · rintro ⟨-, o, ho, -, -⟩
      exact ⟨o, ho⟩
    · rintro ⟨o, ho⟩
      obtain ⟨x, hx, -⟩ := eval_denotes known ho
      exact ⟨_, o, ho, by simp [hx], rfl⟩
  | binary op opSpan left right ihl ihr =>
    simp only [Fails, not_or, ← ihl, ← ihr, Option.isSome_iff_exists, eval_binary_eq_some]
    constructor
    · rintro ⟨a, l, r, hl, hr, ho⟩
      have evaluated := Option.isSome_of_eq_some ho
      exact ⟨⟨l, hl⟩, ⟨r, hr⟩, (isSome_evalOperation_iff known hl hr).1 evaluated⟩
    · rintro ⟨⟨l, hl⟩, ⟨r, hr⟩, fine⟩
      obtain ⟨a, ho⟩ := Option.isSome_iff_exists.1 ((isSome_evalOperation_iff known hl hr).2 fine)
      exact ⟨a, l, r, hl, hr, ho⟩

/-- The issues of an expression are those of its nodes. -/
theorem issues_eval (known : s.symbols.Known) (e : Expr) :
    (s.eval (.scalar type) e).issues = e.nodes.flatMap (s.issuesAt type) := by
  induction e with
  | literal n span => simp [Expr.nodes, issuesAt]
  | access name => simp [Expr.nodes, issuesAt]
  | group opening inner closing ih =>
    rw [Expr.nodes, List.flatMap_cons, ← ih, eval, Checked.issues_bind]
    cases (s.eval (.scalar type) inner).result <;> exact List.append_nil _
  | unary sign span operand ih =>
    rw [Expr.nodes, List.flatMap_cons, ← ih, eval, Checked.issues_bind]
    cases ho : (s.eval (.scalar type) operand).result with
    | none => exact List.append_nil _
    | some o =>
      obtain ⟨x, hx, -⟩ := eval_denotes known ho
      simp [hx, Checked.ok, issuesAt]
  | binary op opSpan left right ihl ihr =>
    have own : (s.eval (.scalar type) (.binary op opSpan left right)).issues =
        (s.eval (.scalar type) left).issues ++ (s.eval (.scalar type) right).issues ++
          ((s.eval (.scalar type) left).result.bind fun l =>
            (s.eval (.scalar type) right).result.map fun r => (l, r)).elim [] fun both =>
              (evalOperation op type (left.span.cover right.span) both.1 both.2).issues := by
      rw [eval, Checked.issues_bind]
      rfl
    rw [own, Expr.nodes, List.flatMap_cons, List.flatMap_append, ← ihl, ← ihr]
    cases hl : (s.eval (.scalar type) left).result with
    | none => simp [issuesAt, dividesByZero, hl]
    | some l =>
      cases hr : (s.eval (.scalar type) right).result with
      | none => simp [issuesAt, dividesByZero, hl, hr]
      | some r =>
        -- Nothing was reported of the operands, so that it makes no difference whether the issue
        -- of the operation stands before theirs or behind.
        obtain ⟨x, hx, -⟩ := eval_denotes known hl
        obtain ⟨y, hy, -⟩ := eval_denotes known hr
        have number := Annotated.number?_of_valuation hy
        have silent_left := isSome_eval_iff.1 (Option.isSome_of_eq_some hl)
        have silent_right := isSome_eval_iff.1 (Option.isSome_of_eq_some hr)
        have place : r.span = right.span := (mirrors_eval hr).span
        have divides : s.dividesByZero type op left right = true ↔
            (op = .divide ∨ op = .remainder) ∧ y.isZero = true := by
          simp [dividesByZero, hl, hr, number]
        simp only [Option.bind_some, Option.map_some, Option.elim_some, silent_left, silent_right,
          issues_evalOperation (Annotated.number?_of_valuation hx) number, place, issuesAt, divides,
          List.nil_append, List.append_nil]

/-- Storing a number says why its type does not hold it, or that it is rounded. -/
theorem mem_issues_store {a : Annotated} {x : Decimal} {i : Issue} (number : a.number? = some x) :
    i ∈ (store type a).issues ↔
      (∃ misfit, type.bind x = .error misfit ∧ i = .valueMisfit x a.span type misfit) ∨
        ∃ stored, type.bind x = .ok stored ∧ stored ≠ x ∧ i = .rounded x stored a.span type := by
  rw [store, number]
  cases bound : type.bind x with
  | error misfit => simp [bound, Checked.fail]
  | ok stored => by_cases same : stored = x <;> simp [bound, same]

theorem diagnostics_issuesAt (s : Scope) (type : Scalar) (node : Expr) :
    (s.issuesAt type node).flatMap Issue.diagnostics = s.reportsAt type node := by
  cases node with
  | literal | access | group | unary => rfl
  | binary op opSpan left right =>
    rw [issuesAt, reportsAt]
    split <;> rfl

/-- What is reported of an expression is what is reported of its nodes. -/
theorem reports_eval (known : s.symbols.Known) (e : Expr) :
    (s.eval (.scalar type) e).issues.flatMap Issue.diagnostics =
      e.nodes.flatMap (s.reportsAt type) := by
  rw [issues_eval known, List.flatMap_assoc]
  exact List.flatMap_congr fun node _ => diagnostics_issuesAt s type node

/-- Nothing is reported of a literal or a name that comes to something. -/
theorem reportsAt_leaf {leaf : Expr} (h : leaf.isLeaf = true)
    (evaluated : (s.eval (.scalar type) leaf).result.isSome = true) :
    s.reportsAt type leaf = [] := by
  have silent := isSome_eval_iff.1 evaluated
  cases leaf with
  | literal | access => simp only [reportsAt, silent, List.flatMap_nil]
  | group | unary | binary => contradiction

/-- One error is reported of a literal or a name that comes to nothing. -/
theorem hasOneError {leaf : Expr} (h : leaf.isLeaf = true)
    (failed : (s.eval (.scalar type) leaf).result = none) :
    leaf.HasOneError (s.reportsAt type leaf) := by
  cases leaf with
  | literal n span =>
    refine ⟨.notRepresentable, List.mem_singleton_self _, ?_⟩
    simp only [reportsAt, eval, evalLiteral] at failed ⊢
    cases hx : n.value? with
    | none => exact ⟨_, [], rfl, rfl⟩
    | some x =>
      cases hm : type.misfit? x with
      | some misfit =>
        simp only [hm]
        exact ⟨_, [], rfl, rfl⟩
      | none => simp [hx, hm] at failed
  | access name =>
    simp only [reportsAt, eval, evalName] at failed ⊢
    cases hs : s.resolved? name.text with
    | some symbol =>
      by_cases typed : symbol.type = .scalar type
      · simp [hs, typed] at failed
      · simp only [if_neg typed]
        exact ⟨.typeMismatch, by simp [Expr.leafCodes], _, [], rfl, rfl⟩
    | none =>
      cases hp : s.pending? name.text with
      | some later => exact ⟨.notYetResolved, by simp [Expr.leafCodes], _, _, rfl, _, rfl⟩
      | none => exact ⟨.undefinedName, by simp [Expr.leafCodes], _, [], rfl, rfl⟩
  | group | unary | binary => contradiction

end Scope

/-! ## Whole runs -/

/-- In every scope of a run, what is reported of an expression is what is reported of each of its
nodes by itself, once and in the order of the source: one error of a literal or a name that goes
wrong and nothing of any other, one error of a division of two operands that do not go wrong, the
right one denoting zero, and nothing of the other operations. The expression comes to something
unless one of its nodes goes wrong, which is exactly if no error is reported, and then nothing else
is. -/
theorem Program.eval_reports_all {p : Program} {s : Scope} (reached : p.Reaches s) (type : Scalar)
    (e : Expr) :
    let outcome := s.eval (.scalar type) e
    let said := outcome.issues.flatMap Issue.diagnostics
    said = e.nodes.flatMap (s.reportsAt type) ∧
    (∀ node ∈ e.nodes, (s.eval (.scalar type) node).result = none ↔ s.Fails type node) ∧
    (∀ leaf ∈ e.nodes, leaf.isLeaf = true →
      (s.Fails type leaf → leaf.HasOneError (s.reportsAt type leaf)) ∧
      (¬ s.Fails type leaf → s.reportsAt type leaf = [])) ∧
    (∀ op opSpan left right, .binary op opSpan left right ∈ e.nodes →
      (s.dividesByZero type op left right = true ↔
        (op = .divide ∨ op = .remainder) ∧ ¬ s.Fails type left ∧ ¬ s.Fails type right ∧
          right.denote? s.symbols.constant? type = some 0)) ∧
    (outcome.result.isSome = true ↔ ∀ r ∈ said, r.severity ≠ .error) ∧
    (outcome.result.isSome = true → said = []) := by
  intro outcome said
  have known : s.symbols.Known := (Symbols.inductive_wellTyped.of_reaches reached).known
  have consistent : outcome.Consistent := Checked.compositional_consistent.eval s (.scalar type) e
  have failed_iff (node : Expr) :
      (s.eval (.scalar type) node).result = none ↔ s.Fails type node := by
    rw [← not_iff_not, ← Scope.isSome_eval_iff_not_fails known, Option.isSome_iff_ne_none]
  refine ⟨Scope.reports_eval known e, fun node _ => failed_iff node,
    fun leaf _ isLeaf => ⟨fun fails => ?_, fun fine => ?_⟩, fun op _ left right _ => ?_, ?_,
    fun evaluated => ?_⟩
  · exact Scope.hasOneError isLeaf ((failed_iff leaf).2 fails)
  · exact Scope.reportsAt_leaf isLeaf ((Scope.isSome_eval_iff_not_fails known).2 fine)
  · rw [Scope.dividesByZero_iff known, Scope.isSome_eval_iff_not_fails known,
      Scope.isSome_eval_iff_not_fails known]
  · refine consistent.trans ⟨fun roundings r mem error => ?_, fun harmless => ?_⟩
    · exact Issue.exists_error_iff.1 ⟨r, mem, error⟩ roundings
    · by_contra failed
      obtain ⟨r, mem, error⟩ := Issue.exists_error_iff.2 failed
      exact harmless r mem error
  · have silent : outcome.issues = [] := Scope.isSome_eval_iff.1 evaluated
    simp [said, silent]

/-! `((a / 0) + 0.6) * (b / 0) - c` after `a : i4 = missing ; b : i4 = 5 ; c : i4 = a ;` -/

namespace Reported

open Redefined

def program : Program := ⟨[failed, other, user], origin⟩

def collected : Pass := ⟨.deferred [failed, other, user], true, []⟩

def scope : Scope :=
  ⟨⟨[⟨other.name, .i4, .leaf origin ⟨.metatype, some (.type (.scalar .i4))⟩, other.value,
    .leaf origin ⟨.scalar .i4, some (.number ⟨5, 0⟩)⟩, ⟨.scalar .i4, some (.number ⟨5, 0⟩)⟩⟩]⟩,
    [user], ["a", "b", "c"]⟩

def zero : DigitRun := ⟨"0", rfl⟩

def literal (whole : DigitRun) (fraction : Option DigitRun) : Expr :=
  .literal ⟨whole, fraction, none⟩ origin

def access (name : String) : Expr := .access ⟨name, origin⟩

def quotient (dividend : Expr) : Expr :=
  .binary .divide origin dividend (literal zero none)

def sum : Expr :=
  .binary .add origin (.group origin (quotient (access "a")) origin)
    (literal zero (some ⟨"6", rfl⟩))

def product : Expr :=
  .binary .multiply origin (.group origin sum origin)
    (.group origin (quotient (access "b")) origin)

def expression : Expr := .binary .subtract origin product (access "c")

end Reported

open Redefined Reported in
/-- The first division is not one of two numbers, so that only its dividend is reported. -/
theorem Program.eval_reports_all_failures :
    program.Reaches scope ∧
    (expression.nodes.flatMap (scope.reportsAt .i4)).map (·.code) =
      [some .undefinedName, some .notRepresentable, some .divisionByZero, some .notYetResolved,
        none] ∧
    (scope.eval (.scalar .i4) expression).result = none ∧
    (scope.eval (.scalar .i4) expression).issues.flatMap Issue.diagnostics =
      expression.nodes.flatMap (scope.reportsAt .i4) ∧
    (scope.Fails .i4 (access "a") ∧ (access "a").HasOneError (scope.reportsAt .i4 (access "a"))) ∧
    (¬ scope.Fails .i4 (access "b") ∧ scope.reportsAt .i4 (access "b") = []) ∧
    (literal zero none).denote? scope.symbols.constant? .i4 = some 0 := by
  have collects : Scope.builtins.collect program.definitions = .ok collected := by decide +kernel
  have order : collected.scope.pendingInOrder = [failed, other] ++ [user] := by decide +kernel
  have resolves : [failed, other].foldlM Pass.resolve (Pass.start collected.scope) =
      .ok ⟨scope, false, [.undefinedName ⟨"missing", origin⟩]⟩ := by decide +kernel
  have reached : program.Reaches scope := .resolving collects order resolves
  obtain ⟨said, fails, leaves, quotients, -, silent⟩ := eval_reports_all reached .i4 expression
  have codes : (expression.nodes.flatMap (scope.reportsAt .i4)).map (·.code) =
      [some .undefinedName, some .notRepresentable, some .divisionByZero, some .notYetResolved,
        none] := by decide +kernel
  have undefined : scope.Fails .i4 (access "a") :=
    (fails (access "a") (by decide)).1 (by decide +kernel)
  have resolved : ¬ scope.Fails .i4 (access "b") :=
    mt (fails (access "b") (by decide)).2 (by decide +kernel)
  have divided := (quotients .divide origin (access "b") (literal zero none) (by decide)).1
    (by decide +kernel)
  have failed : ¬ (scope.eval (.scalar .i4) expression).result.isSome = true := by
    intro evaluated
    rw [← said, silent evaluated] at codes
    contradiction
  exact ⟨reached, codes, Option.not_isSome_iff_eq_none.1 failed, said,
    ⟨undefined, (leaves (access "a") (by decide) rfl).1 undefined⟩,
    ⟨resolved, (leaves (access "b") (by decide) rfl).2 resolved⟩, divided.2.2.2⟩

end ConstLang
