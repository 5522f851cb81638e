import ConstLang.Proofs.Evaluation.Success
import ConstLang.Proofs.Program.Node
import ConstLang.Proofs.Resolution.Run

/-!
# Where variables and issues come from

Resolution makes nothing up. A variable is that of a definition of the program, and its trees mirror
the expressions of the definition; an issue is about names, numbers and expressions that stand in
the program.
-/

namespace ConstLang

/-! ## Trees -/

/-- A tree has a node for each node of an expression, in the same place. -/
inductive Annotated.Mirrors : Annotated → Expr → Prop
  | literal (n : Numeral) (span : Span) (v : Valuation) : Mirrors (.leaf span v) (.literal n span)
  | access (name : Name) (v : Valuation) : Mirrors (.leaf name.span v) (.access name)
  | group {a : Annotated} {inner : Expr} (opening closing : Span) (v : Valuation) :
      Mirrors a inner →
      Mirrors (.one (Expr.group opening inner closing).span v a) (.group opening inner closing)
  | unary {a : Annotated} {operand : Expr} (sign : Sign) (span : Span) (v : Valuation) :
      Mirrors a operand →
      Mirrors (.one (Expr.unary sign span operand).span v a) (.unary sign span operand)
  | binary {l r : Annotated} {left right : Expr} (op : Operator) (span : Span) (v : Valuation) :
      Mirrors l left → Mirrors r right →
      Mirrors (.two (Expr.binary op span left right).span v l r) (.binary op span left right)

theorem Annotated.Mirrors.span {a : Annotated} {e : Expr} (h : a.Mirrors e) : a.span = e.span := by
  cases h <;> rfl

theorem Annotated.Mirrors.spans {a : Annotated} {e : Expr} (h : a.Mirrors e) :
    a.nodes.map Annotated.span = e.nodes.map Expr.span := by
  induction h with
  | literal | access => rfl
  | group opening closing v _ ih => exact congrArg (List.cons _) ih
  | unary sign span v _ ih => exact congrArg (List.cons _) ih
  | binary op span v _ _ ihl ihr =>
    simp only [nodes, Expr.nodes, List.map_cons, List.map_append, ihl, ihr]
    rfl

/-- The parts of a variable are those of a definition. -/
structure Variable.Mirrors (v : Variable) (d : Definition) : Prop where
  name : v.name = d.name
  expr : v.expr = d.value
  declared : v.declared.Mirrors d.type
  value : v.value.Mirrors d.value

namespace Scope

variable {s : Scope}

theorem mirrors_evalOperation {op : Operator} {type : Scalar} {span : Span} {left right : Expr}
    {l r a : Annotated} (hl : l.Mirrors left) (hr : r.Mirrors right)
    (h : (evalOperation op type (Expr.binary op span left right).span l r).result = some a) :
    a.Mirrors (.binary op span left right) := by
  unfold evalOperation at h
  split at h
  · split at h
    · cases h
      exact .binary op span _ hl hr
    · cases h
  · cases h
    exact .binary op span _ hl hr

theorem mirrors_eval {expected : Ty} {e : Expr} {a : Annotated}
    (h : (s.eval expected e).result = some a) : a.Mirrors e := by
  induction e generalizing expected a with
  | literal n span =>
    cases expected with
    | metatype => cases h
    | scalar type =>
      obtain ⟨x, -, -, rfl⟩ := eval_literal_eq_some.1 h
      exact .literal n span _
  | access name =>
    obtain ⟨symbol, -, -, rfl⟩ := eval_access_eq_some.1 h
    exact .access name _
  | group opening inner closing ih =>
    obtain ⟨i, hi, rfl⟩ := eval_group_eq_some.1 h
    exact .group opening closing _ (ih hi)
  | unary sign span operand ih =>
    obtain ⟨o, ho, -, rfl⟩ := eval_unary_eq_some.1 h
    exact .unary sign span _ (ih ho)
  | binary op span left right ihl ihr =>
    cases expected with
    | metatype => cases h
    | scalar type =>
      obtain ⟨l, r, hl, hr, h⟩ := eval_binary_eq_some.1 h
      exact mirrors_evalOperation (ihl hl) (ihr hr) h

theorem mirrors_define {d : Definition} {v : Variable} (h : (s.define d).result = some v) :
    v.Mirrors d := by
  obtain ⟨name, expr, declared, -, -, value, -⟩ := define_eq_some.1 h
  exact ⟨name, expr, mirrors_eval declared, mirrors_eval value⟩

end Scope

/-! ## Issues -/

namespace Program

/-- A name stands in the program. -/
def Mentions (p : Program) (name : Name) : Prop :=
  name.token ∈ p.definitions.flatMap Definition.tokens

/-- A number stands in the program. -/
def Quotes (p : Program) (n : Numeral) (span : Span) : Prop := .expr (.literal n span) ∈ p.nodes

/-- A span is that of an expression of the program. -/
def Places (p : Program) (span : Span) : Prop := ∃ e, .expr e ∈ p.nodes ∧ e.span = span

/-- An expression is one of the program with all that it is made of. -/
def Contains (p : Program) (e : Expr) : Prop := ∀ node ∈ e.nodes, .expr node ∈ p.nodes

variable {p : Program} {d : Definition}

theorem mentions_definition (mem : d ∈ p.definitions) : p.Mentions d.name :=
  List.mem_flatMap_of_mem mem (by simp [Definition.tokens])

theorem contains_exprs (mem : d ∈ p.definitions) : p.Contains d.type ∧ p.Contains d.value := by
  have nodes : ∀ n ∈ d.nodes, n ∈ p.nodes := fun n hn => List.mem_flatMap_of_mem mem hn
  exact ⟨fun e he => nodes _ (by simp [Definition.nodes, he]),
    fun e he => nodes _ (by simp [Definition.nodes, he])⟩

theorem mentions_access {name : Name} (h : .expr (.access name) ∈ p.nodes) : p.Mentions name :=
  (tokens_isInfix h).subset (List.mem_singleton_self _)

theorem Contains.places {e : Expr} (h : p.Contains e) : p.Places e.span :=
  ⟨e, h e e.mem_nodes_self, rfl⟩

end Program

/-- What an issue is about stands in a program: the names and the numbers that it quotes, and an
expression where it points to. -/
def Issue.About (p : Program) : Issue → Prop
  | builtinName name | mismatch name _ _ | undefinedName name => p.Mentions name
  | redeclared name other | notYetResolved name other => p.Mentions name ∧ p.Mentions other
  | numberAsType n span | exponentOutOfRange n span | literalMisfit n span _ _ => p.Quotes n span
  | signedType _ span _ | operationAsType _ span _ | divisionByZero span
  | valueMisfit _ span _ _ | rounded _ _ span _ => p.Places span
  | metatypeVariable name span | unknownType name span | unstorableType name _ span =>
    p.Mentions name ∧ p.Places span

namespace Checked

variable {α β : Type} {P : Issue → Prop}

theorem forall_issues_fail {i : Issue} (h : P i) : ∀ j ∈ (Checked.fail i : Checked α).issues, P j :=
  fun _ mem => List.mem_singleton.1 mem ▸ h

theorem forall_issues_bind {x : Checked α} {f : α → Checked β} (hx : ∀ i ∈ x.issues, P i)
    (hf : ∀ a, x.result = some a → ∀ i ∈ (f a).issues, P i) : ∀ i ∈ (x >>= f).issues, P i := by
  change ∀ i ∈ (x.bind f).issues, P i
  unfold Checked.bind
  cases hr : x.result with
  | none => exact hx
  | some a => exact List.forall_mem_append.2 ⟨hx, hf a hr⟩

end Checked

namespace Scope

/-- The issues that a node of an expression may raise by itself, or as a divisor. -/
inductive Raises (s : Scope) : Expr → Issue → Prop
  | numberAsType {n : Numeral} {span : Span} : Raises s (.literal n span) (.numberAsType n span)
  | exponentOutOfRange {n : Numeral} {span : Span} :
      Raises s (.literal n span) (.exponentOutOfRange n span)
  | literalMisfit {n : Numeral} {span : Span} {type : Scalar} {x : Decimal} {misfit : Misfit} :
      n.value? = some x → type.misfit? x = some misfit →
      Raises s (.literal n span) (.literalMisfit n span type misfit)
  | mismatch {name : Name} {actual expected : Ty} :
      Raises s (.access name) (.mismatch name actual expected)
  | notYetResolved {name : Name} {later : Definition} :
      later ∈ s.pending → Raises s (.access name) (.notYetResolved name later.name)
  | undefinedName {name : Name} : Raises s (.access name) (.undefinedName name)
  | signedType {sign : Sign} {span : Span} {operand : Expr} {type : Ty} :
      Raises s (.unary sign span operand)
        (.signedType sign (Expr.unary sign span operand).span type)
  | operationAsType {op : Operator} {span : Span} {left right : Expr} {expected : Ty} :
      Raises s (.binary op span left right)
        (.operationAsType op (Expr.binary op span left right).span expected)
  | divisionByZero {divisor : Expr} : Raises s divisor (.divisionByZero divisor.span)

variable {p : Program} {s : Scope}

theorem eq_of_mem_issues_evalOperation {op : Operator} {type : Scalar} {span : Span}
    {left right : Annotated} {i : Issue}
    (h : i ∈ (evalOperation op type span left right).issues) : i = .divisionByZero right.span := by
  unfold evalOperation at h
  split at h
  · split at h
    · contradiction
    · exact List.mem_singleton.1 h
  · contradiction

/-- Every issue of an evaluation is one that a node of the expression raises. -/
theorem exists_raises (expected : Ty) (e : Expr) :
    ∀ i ∈ (s.eval expected e).issues, ∃ node ∈ e.nodes, s.Raises node i := by
  induction e generalizing expected with
  | literal n span =>
    have raised {i : Issue} (h : s.Raises (.literal n span) i) :
        ∃ node ∈ (Expr.literal n span).nodes, s.Raises node i := ⟨_, Expr.mem_nodes_self _, h⟩
    unfold eval evalLiteral
    split
    · exact Checked.forall_issues_fail (raised .numberAsType)
    · split
      · exact Checked.forall_issues_fail (raised .exponentOutOfRange)
      · next x hx =>
        split
        · next misfit hm => exact Checked.forall_issues_fail (raised (.literalMisfit hx hm))
        · exact List.forall_mem_nil _
  | access name =>
    have raised {i : Issue} (h : s.Raises (.access name) i) :
        ∃ node ∈ (Expr.access name).nodes, s.Raises node i := ⟨_, Expr.mem_nodes_self _, h⟩
    unfold eval evalName
    split
    · split
      · exact List.forall_mem_nil _
      · exact Checked.forall_issues_fail (raised .mismatch)
    · split
      · next later known =>
        have mem := List.mem_of_find?_eq_some known
        exact Checked.forall_issues_fail (raised (.notYetResolved mem))
      · exact Checked.forall_issues_fail (raised .undefinedName)
  | group opening inner closing ih =>
    have inside : ∀ i ∈ (s.eval expected inner).issues,
        ∃ node ∈ (Expr.group opening inner closing).nodes, s.Raises node i :=
      fun i said => (ih _ i said).imp fun _ => .imp_left (List.mem_cons_of_mem _)
    rw [eval]
    exact Checked.forall_issues_bind inside fun _ _ => List.forall_mem_nil _
  | unary sign span operand ih =>
    have inside : ∀ i ∈ (s.eval expected operand).issues,
        ∃ node ∈ (Expr.unary sign span operand).nodes, s.Raises node i :=
      fun i said => (ih _ i said).imp fun _ => .imp_left (List.mem_cons_of_mem _)
    rw [eval]
    refine Checked.forall_issues_bind inside fun _ _ => ?_
    split
    · exact Checked.forall_issues_fail ⟨_, Expr.mem_nodes_self _, .signedType⟩
    · exact List.forall_mem_nil _
  | binary op span left right ihl ihr =>
    have on_left {node : Expr} (mem : node ∈ left.nodes) :
        node ∈ (Expr.binary op span left right).nodes :=
      List.mem_cons_of_mem _ (List.mem_append_left _ mem)
    have on_right {node : Expr} (mem : node ∈ right.nodes) :
        node ∈ (Expr.binary op span left right).nodes :=
      List.mem_cons_of_mem _ (List.mem_append_right _ mem)
    cases expected with
    | metatype =>
      rw [eval]
      exact Checked.forall_issues_fail ⟨_, Expr.mem_nodes_self _, .operationAsType⟩
    | scalar type =>
      have inside : ∀ i ∈ (s.eval (.scalar type) left).issues ++
          (s.eval (.scalar type) right).issues,
          ∃ node ∈ (Expr.binary op span left right).nodes, s.Raises node i :=
        List.forall_mem_append.2
          ⟨fun i said => (ihl _ i said).imp fun _ => .imp_left on_left,
            fun i said => (ihr _ i said).imp fun _ => .imp_left on_right⟩
      rw [eval]
      refine Checked.forall_issues_bind inside ?_
      rintro ⟨l, r⟩ results i said
      have place := (mirrors_eval (Checked.result_both_eq_some.1 results).2).span
      obtain rfl := eq_of_mem_issues_evalOperation said
      rw [place]
      exact ⟨right, on_right (Expr.mem_nodes_self _), .divisionByZero⟩

theorem about_eval (pending : ∀ d ∈ s.pending, d ∈ p.definitions) {e : Expr} (h : p.Contains e)
    (expected : Ty) : ∀ i ∈ (s.eval expected e).issues, i.About p := by
  intro i said
  obtain ⟨node, mem, raised⟩ := exists_raises expected e i said
  have node_mem := h node mem
  cases raised with
  | numberAsType | exponentOutOfRange | literalMisfit => exact node_mem
  | mismatch | undefinedName => exact Program.mentions_access node_mem
  | notYetResolved later =>
    exact ⟨Program.mentions_access node_mem, Program.mentions_definition (pending _ later)⟩
  | signedType | operationAsType | divisionByZero => exact ⟨_, node_mem, rfl⟩

theorem about_declaredType {name : Name} {declared : Annotated} (mentioned : p.Mentions name)
    (h : p.Places declared.span) : ∀ i ∈ (declaredType name declared).issues, i.About p := by
  unfold declaredType
  split
  · split
    · exact List.forall_mem_nil _
    · exact Checked.forall_issues_fail ⟨mentioned, h⟩
  · exact Checked.forall_issues_fail ⟨mentioned, h⟩
  · exact Checked.forall_issues_fail ⟨mentioned, h⟩

theorem about_store (type : Scalar) {value : Annotated} (h : p.Places value.span) :
    ∀ i ∈ (store type value).issues, i.About p := by
  unfold store
  split
  · exact List.forall_mem_nil _
  · split
    · exact Checked.forall_issues_fail h
    · intro i mem
      dsimp only at mem
      split at mem
      · cases mem
      · exact List.mem_singleton.1 mem ▸ h

theorem about_define (pending : ∀ d ∈ s.pending, d ∈ p.definitions) {d : Definition}
    (mem : d ∈ p.definitions) : ∀ i ∈ (s.define d).issues, i.About p := by
  obtain ⟨type, value⟩ := Program.contains_exprs mem
  unfold define
  refine Checked.forall_issues_bind (about_eval pending type _) fun declared hd => ?_
  have placed : p.Places declared.span := (mirrors_eval hd).span ▸ type.places
  refine Checked.forall_issues_bind
    (about_declaredType (Program.mentions_definition mem) placed) fun type _ => ?_
  refine Checked.forall_issues_bind (about_eval pending value _) fun stored hv => ?_
  have placed : p.Places stored.span := (mirrors_eval hv).span ▸ value.places
  exact Checked.forall_issues_bind (about_store type placed) fun _ _ => List.forall_mem_nil _

end Scope

/-! ## Runs -/

/-- A pass has taken what it has from a program. -/
structure Pass.From (p : Program) (q : Pass) : Prop where
  pending : ∀ d ∈ q.scope.pending, d ∈ p.definitions
  vars : ∀ v ∈ q.scope.symbols.vars, ∃ d ∈ p.definitions, v.Mirrors d
  issues : ∀ i ∈ q.issues, i.About p

namespace Pass

variable {p : Program} {q q' : Pass} {d : Definition}

theorem From.refuse {i : Issue} (h : q.From p) (about : i.About p) : (q.refuse i).From p :=
  ⟨h.pending, h.vars, List.forall_mem_append.2 ⟨h.issues, fun _ mem =>
    List.mem_singleton.1 mem ▸ about⟩⟩

theorem From.collect (h : q.From p) (mem : d ∈ p.definitions) (hq : q.collect d = .ok q') :
    q'.From p := by
  have mentioned := Program.mentions_definition mem
  unfold Pass.collect at hq
  split at hq
  · exact Except.ok.inj hq ▸ h.refuse mentioned
  · split at hq
    · next earlier known =>
      have earlier_mem := h.pending earlier (List.mem_of_find?_eq_some known)
      exact Except.ok.inj hq ▸ h.refuse ⟨mentioned, Program.mentions_definition earlier_mem⟩
    · cases hs : q.scope.defer d with
      | error fault => simp [hs, Except.map] at hq
      | ok scope =>
        rw [hs] at hq
        obtain rfl := Except.ok.inj hq
        obtain rfl := Scope.eq_of_defer hs
        refine ⟨?_, h.vars, h.issues⟩
        exact List.forall_mem_append.2 ⟨h.pending, fun _ last => List.mem_singleton.1 last ▸ mem⟩

theorem From.resolve (h : q.From p) (mem : d ∈ p.definitions) (hq : q.resolve d = .ok q') :
    q'.From p := by
  have issues := List.forall_mem_append.2 ⟨h.issues, Scope.about_define h.pending mem⟩
  have left : ∀ e ∈ q.scope.pending.filter (fun e => e.name.text ≠ d.name.text),
      e ∈ p.definitions := fun e he => h.pending e (List.mem_filter.1 he).1
  rcases eq_of_resolve hq with ⟨v, hv, rfl⟩ | ⟨-, rfl⟩
  · refine ⟨left, List.forall_mem_append.2 ⟨h.vars, fun w last => ?_⟩, issues⟩
    obtain rfl := List.mem_singleton.1 last
    exact ⟨d, mem, Scope.mirrors_define hv⟩
  · exact ⟨left, h.vars, issues⟩

theorem From.pendingInOrder (h : q.From p) : ∀ d ∈ q.scope.pendingInOrder, d ∈ p.definitions := by
  intro d hd
  obtain ⟨name, -, known⟩ := List.mem_filterMap.1 hd
  exact h.pending d (List.mem_of_find?_eq_some known)

end Pass

theorem Program.from_of_collect {p : Program} {collected : Pass}
    (h : Scope.builtins.collect p.definitions = .ok collected) : collected.From p :=
  foldlM_invariant_of_mem (fun hd hp hq => hp.collect hd hq) h
    ⟨List.forall_mem_nil _, List.forall_mem_nil _, List.forall_mem_nil _⟩

/-- The variables of a resolution are those of definitions, and its issues are about what stands in
the program. -/
theorem Program.from_of_resolve {p : Program} {r : Resolution} (h : p.resolve = .ok r) :
    (∀ v ∈ r.symbols.vars, ∃ d ∈ p.definitions, v.Mirrors d) ∧ ∀ i ∈ r.issues, i.About p := by
  obtain ⟨collected, hc, h⟩ := bind_eq_ok.1 h
  obtain ⟨resolved, hr, h⟩ := bind_eq_ok.1 h
  obtain ⟨symbols, hf, h⟩ := bind_eq_ok.1 h
  obtain rfl := Except.ok.inj h
  have first := from_of_collect hc
  have second : resolved.From p :=
    foldlM_invariant_of_mem (fun hd hp hq => hp.resolve (first.pendingInOrder _ hd) hq) hr
      ⟨first.pending, first.vars, List.forall_mem_nil _⟩
  obtain rfl := Scope.eq_of_finish hf
  exact ⟨second.vars, List.forall_mem_append.2 ⟨first.issues, second.issues⟩⟩

end ConstLang
