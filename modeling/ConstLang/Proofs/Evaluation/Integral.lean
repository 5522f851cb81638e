import ConstLang.Proofs.Evaluation.Reports
import ConstLang.Proofs.Resolution.Settling

/-!
# Integer types keep to integers

An integer type holds nothing but integers, so what is written in an expression of that type and
what its names stand for are integers. All operations keep to them: a quotient is rounded to an
integer, and a remainder is one already. So whatever an expression comes to on the way is an
integer, if perhaps none of its type, and a number that is none is stopped where it is written.
-/

namespace ConstLang

open Rational

/-! ## Types and operations -/

namespace Scalar

variable {type : Scalar} {words : Set ℤ} {x : Decimal} {misfit : Misfit}

theorem isStorable_of_words? (h : type.words? = some words) : type.isStorable = true := by
  cases type <;> first | rfl | contradiction

theorem limits?_of_words? (h : type.words? = some words) : type.limits? = none := by
  cases type <;> first | rfl | contradiction

theorem roundQuotient_of_words? (h : type.words? = some words) (q : ℚ) :
    type.roundQuotient q = nearest q := by
  cases type <;> first | rfl | contradiction

/-- What an integer type holds is an integer. -/
theorem toRat_mem_integers (h : type.words? = some words) (fits : type.misfit? x = none) :
    x.toRat ∈ integers := by
  obtain ⟨least, greatest, format, -⟩ := format_of_words? h
  rw [misfit?, format, Format.misfit?] at fits
  split at fits
  · contradiction
  · split at fits
    · contradiction
    · next n whole => exact ⟨n, (Decimal.toRat_of_toInt? whole).symm⟩

/-- An integer type judges a number as if it wrote every integer out. -/
theorem exists_expandedMisfit? (h : type.words? = some words) (normal : x.IsNormal) :
    ∃ least greatest, type.misfit? x = Format.expandedMisfit? least greatest x := by
  obtain ⟨least, greatest, format, spans⟩ := format_of_words? h
  exact ⟨least, greatest, by rw [misfit?, format, Format.misfit?_eq_expandedMisfit? normal spans]⟩

/-- Only an integer type finds that a number is not an integer, and only if it is none. -/
theorem misfit?_eq_notIntegral_iff (normal : x.IsNormal) :
    type.misfit? x = some .notIntegral ↔
      (∃ words, type.words? = some words) ∧ ∀ n : ℤ, x.toRat ≠ n := by
  cases kind : type.words? with
  | some words =>
    obtain ⟨least, greatest, expanded⟩ := exists_expandedMisfit? kind normal
    rw [expanded, Format.expandedMisfit?_eq_notIntegral_iff normal]
    simp
  | none =>
    cases limited : type.limits? with
    | some limits =>
      rw [misfit?_of_limits? limited]
      grind
    | none =>
      cases type with
      | rinf => simp [misfit?, format, Format.misfit?]
      | _ => contradiction

/-- What is bound to a type has at most the wrong size, if it is an integer where the type holds
nothing else. -/
theorem outOfRange_of_bind (normal : x.IsNormal)
    (whole : ∀ words, type.words? = some words → x.toRat ∈ integers)
    (h : type.bind x = .error misfit) : misfit = .outOfRange := by
  cases limited : type.limits? with
  | some limits =>
    obtain ⟨-, -, -, refused, -⟩ := nearest_bind limited x
    exact refused misfit h
  | none =>
    rw [bind_eq_error_iff, rounded_of_limits?_eq_none limited] at h
    cases kind : type.words? with
    | some words =>
      obtain ⟨least, greatest, expanded⟩ := exists_expandedMisfit? kind normal
      obtain ⟨n, same⟩ := whole words kind
      rw [expanded, Format.expandedMisfit?, normal.toInt?_eq_some_iff.2 same.symm] at h
      dsimp only at h
      split at h
      · contradiction
      · exact (Option.some.inj h).symm
    | none => cases type <;> contradiction

end Scalar

/-- Operations on integers come to integers. -/
theorem Operator.onRat?_mem_integers {op : Operator} {type : Scalar} {words : Set ℤ} {x y z : ℚ}
    (h : type.words? = some words) (hx : x ∈ integers) (hy : y ∈ integers)
    (hz : op.onRat? type x y = some z) : z ∈ integers := by
  obtain ⟨m, rfl⟩ := hx
  obtain ⟨n, rfl⟩ := hy
  cases op with
  | add => exact ⟨m + n, (Int.cast_add m n).trans (Option.some.inj hz)⟩
  | subtract => exact ⟨m - n, (Int.cast_sub m n).trans (Option.some.inj hz)⟩
  | multiply => exact ⟨m * n, (Int.cast_mul m n).trans (Option.some.inj hz)⟩
  | divide =>
    obtain ⟨-, hz⟩ := Option.ite_none_left_eq_some.1 hz
    exact ⟨nearest (m / n), (Scalar.roundQuotient_of_words? h _).symm.trans (Option.some.inj hz)⟩
  | remainder =>
    obtain ⟨-, hz⟩ := Option.ite_none_left_eq_some.1 hz
    refine ⟨m - n * cut (m / n), Eq.trans ?_ (Option.some.inj hz)⟩
    push_cast
    rfl

theorem Sign.onRat_mem_integers {sign : Sign} {x : ℚ} (h : x ∈ integers) :
    sign.onRat x ∈ integers := by
  cases sign with
  | plus => exact h
  | minus =>
    obtain ⟨n, rfl⟩ := h
    exact ⟨-n, Int.cast_neg n⟩

/-! ## Evaluation -/

/-- A variable of an integer type stands for an integer. -/
theorem Symbols.WellTyped.exists_integer {s : Symbols} (h : s.WellTyped) {name : String}
    {symbol : Symbol} {type : Scalar} {words : Set ℤ} (kind : type.words? = some words)
    (found : s.get? name = some symbol) (typed : symbol.type = .scalar type) :
    ∃ x, symbol.valuation = ⟨.scalar type, some (.number x)⟩ ∧ x.toRat ∈ integers := by
  cases symbol with
  | builtin t => contradiction
  | declared v =>
    obtain rfl := Ty.scalar.inj typed
    obtain ⟨-, y, -, held, -, fits⟩ := (h v (mem_of_get? found)).stored
    exact ⟨y, held, Scalar.toRat_mem_integers kind fits⟩

namespace Scope

variable {s : Scope} {type : Scalar} {words : Set ℤ}

/-- An expression of an integer type comes to an integer. -/
theorem eval_integer (typed : s.symbols.WellTyped) (kind : type.words? = some words) {e : Expr}
    {a : Annotated} (h : (s.eval (.scalar type) e).result = some a) :
    ∃ x, a.valuation = ⟨.scalar type, some (.number x)⟩ ∧ x.toRat ∈ integers := by
  induction e generalizing a with
  | literal n span =>
    obtain ⟨x, -, fits, rfl⟩ := eval_literal_eq_some.1 h
    exact ⟨x, rfl, Scalar.toRat_mem_integers kind fits⟩
  | access name =>
    obtain ⟨symbol, found, of_type, rfl⟩ := eval_access_eq_some.1 h
    exact typed.exists_integer kind found of_type
  | group opening inner closing ih =>
    obtain ⟨i, hi, rfl⟩ := eval_group_eq_some.1 h
    obtain ⟨x, hx, whole⟩ := ih hi
    exact ⟨x, hx, whole⟩
  | unary sign signSpan operand ih =>
    obtain ⟨o, ho, -, rfl⟩ := eval_unary_eq_some.1 h
    obtain ⟨x, hx, whole⟩ := ih ho
    obtain ⟨y, hy, value⟩ := sign.apply_number (.scalar type) x
    exact ⟨y, (congrArg sign.apply hx).trans hy, value ▸ Sign.onRat_mem_integers whole⟩
  | binary op opSpan left right ihl ihr =>
    obtain ⟨l, r, hl, hr, ho⟩ := eval_binary_eq_some.1 h
    obtain ⟨x, hx, left_whole⟩ := ihl hl
    obtain ⟨y, hy, right_whole⟩ := ihr hr
    obtain ⟨z, hz, rfl⟩ := (evalOperation_eq_some (Annotated.number?_of_valuation hx)
      (Annotated.number?_of_valuation hy)).1 ho
    exact ⟨z, rfl, Operator.onRat?_mem_integers kind left_whole right_whole
      (Operator.onRat?_toRat hz)⟩

/-- The integer is in normal form, so that it shows as one. -/
theorem eval_toInt? (typed : s.symbols.WellTyped) (sized : s.symbols.Sized)
    (kind : type.words? = some words) {e : Expr} {a : Annotated}
    (h : (s.eval (.scalar type) e).result = some a) :
    ∃ (x : Decimal) (n : ℤ), a.valuation = ⟨.scalar type, some (.number x)⟩ ∧ x.IsNormal ∧
      x.toInt? = some n ∧ x.toRat = n := by
  obtain ⟨x, hx, size⟩ := eval_sized sized (Scalar.isStorable_of_words? kind) h
  obtain ⟨y, hy, n, same⟩ := eval_integer typed kind h
  obtain rfl : x = y := by simpa [hx] using hy
  exact ⟨x, n, hx, size.normal, size.normal.toInt?_eq_some_iff.2 same.symm, same.symm⟩

theorem nodes_evalOperation {op : Operator} {span : Span} {l r a : Annotated}
    (h : (evalOperation op type span l r).result = some a) :
    a.nodes = a :: (l.nodes ++ r.nodes) := by
  unfold evalOperation at h
  split at h
  · split at h
    · cases h
      rfl
    · contradiction
  · cases h
    rfl

/-- Each node of a tree is what a node of the expression comes to by itself. -/
theorem exists_eval_of_mem_nodes {e : Expr} {a node : Annotated}
    (h : (s.eval (.scalar type) e).result = some a) (mem : node ∈ a.nodes) :
    ∃ part ∈ e.nodes, (s.eval (.scalar type) part).result = some node := by
  induction e generalizing a with
  | literal n span =>
    obtain ⟨x, -, -, rfl⟩ := eval_literal_eq_some.1 h
    obtain rfl := List.mem_singleton.1 mem
    exact ⟨_, Expr.mem_nodes_self _, h⟩
  | access name =>
    obtain ⟨symbol, -, -, rfl⟩ := eval_access_eq_some.1 h
    obtain rfl := List.mem_singleton.1 mem
    exact ⟨_, Expr.mem_nodes_self _, h⟩
  | group opening inner closing ih =>
    obtain ⟨i, hi, rfl⟩ := eval_group_eq_some.1 h
    rcases List.mem_cons.1 mem with rfl | mem
    · exact ⟨_, Expr.mem_nodes_self _, h⟩
    · obtain ⟨part, inside, hp⟩ := ih hi mem
      exact ⟨part, List.mem_cons_of_mem _ inside, hp⟩
  | unary sign signSpan operand ih =>
    obtain ⟨o, ho, -, rfl⟩ := eval_unary_eq_some.1 h
    rcases List.mem_cons.1 mem with rfl | mem
    · exact ⟨_, Expr.mem_nodes_self _, h⟩
    · obtain ⟨part, inside, hp⟩ := ih ho mem
      exact ⟨part, List.mem_cons_of_mem _ inside, hp⟩
  | binary op opSpan left right ihl ihr =>
    obtain ⟨l, r, hl, hr, ho⟩ := eval_binary_eq_some.1 h
    rw [nodes_evalOperation ho, List.mem_cons, List.mem_append] at mem
    rcases mem with rfl | mem | mem
    · exact ⟨_, Expr.mem_nodes_self _, h⟩
    · obtain ⟨part, inside, hp⟩ := ihl hl mem
      exact ⟨part, List.mem_cons_of_mem _ (List.mem_append_left _ inside), hp⟩
    · obtain ⟨part, inside, hp⟩ := ihr hr mem
      exact ⟨part, List.mem_cons_of_mem _ (List.mem_append_right _ inside), hp⟩

/-- What is wrong with a literal or a name is reported whatever stands around it, and nothing comes
of an expression that it is in. -/
theorem stopped_of_leaf (known : s.symbols.Known) {leaf e : Expr} (isLeaf : leaf.isLeaf = true)
    (mem : leaf ∈ e.nodes) {i : Issue} (said : i ∈ (s.eval (.scalar type) leaf).issues) :
    (s.eval (.scalar type) e).result = none ∧ i ∈ (s.eval (.scalar type) e).issues := by
  have own : i ∈ s.issuesAt type leaf := by
    cases leaf with
    | literal | access => exact said
    | group | unary | binary => contradiction
  have reported : i ∈ (s.eval (.scalar type) e).issues := by
    rw [issues_eval known]
    exact List.mem_flatMap_of_mem mem own
  refine ⟨?_, reported⟩
  rw [← Option.not_isSome_iff_eq_none, isSome_eval_iff]
  exact List.ne_nil_of_mem reported

/-- A number that is not an integer is refused where it is written. -/
theorem issues_literal_of_words? (kind : type.words? = some words) {n : Numeral} (span : Span)
    (other : ∀ m : ℤ, n.toRat ≠ m) :
    (s.eval (.scalar type) (.literal n span)).issues = [.literalMisfit n span type .notIntegral] ∨
      n.value? = none ∧
        (s.eval (.scalar type) (.literal n span)).issues = [.exponentOutOfRange n span] := by
  rw [eval, evalLiteral]
  cases hx : n.value? with
  | none => exact .inr ⟨rfl, rfl⟩
  | some x =>
    have fraction : type.misfit? x = some .notIntegral := by
      rw [Scalar.misfit?_eq_notIntegral_iff (Decimal.isNormal_ofDigits hx),
        Numeral.toRat_of_value? hx]
      exact ⟨⟨words, kind⟩, other⟩
    simp only [fraction]
    exact .inl rfl

/-- At most its size stands against an integer that an integer type is to store. -/
theorem eq_of_mem_issues_store (kind : type.words? = some words) {a : Annotated} {x : Decimal}
    (number : a.number? = some x) (normal : x.IsNormal) (whole : x.toRat ∈ integers) {i : Issue}
    (said : i ∈ (store type a).issues) : i = .valueMisfit x a.span type .outOfRange := by
  rcases (mem_issues_store number).1 said with
    ⟨misfit, refused, rfl⟩ | ⟨stored, bound, changed, -⟩
  · obtain rfl := Scalar.outOfRange_of_bind normal (fun _ _ => whole) refused
    rfl
  · obtain ⟨limits, limited, -⟩ := (Scalar.ne_iff_of_bind bound).1 changed
    rw [Scalar.limits?_of_words? kind] at limited
    contradiction

end Scope

/-! ## Misfits -/

/-- What does not fit a type is a literal that the type does not hold, or the value of a definition
that is out of its range. -/
def Issue.Explained : Issue → Prop
  | literalMisfit n _ type misfit => ∃ x, n.value? = some x ∧ type.misfit? x = some misfit
  | valueMisfit _ _ _ misfit => misfit = .outOfRange
  | _ => True

namespace Scope

variable {s : Scope}

theorem explained_eval (expected : Ty) (e : Expr) :
    ∀ i ∈ (s.eval expected e).issues, i.Explained := by
  intro i said
  obtain ⟨node, -, raised⟩ := exists_raises expected e i said
  cases raised with
  | literalMisfit value misfit => exact ⟨_, value, misfit⟩
  | _ => trivial

theorem explained_declaredType (name : Name) (declared : Annotated) :
    ∀ i ∈ (declaredType name declared).issues, i.Explained := by
  unfold declaredType
  split
  · split
    · exact List.forall_mem_nil _
    · exact Checked.forall_issues_fail trivial
  · exact Checked.forall_issues_fail trivial
  · exact Checked.forall_issues_fail trivial

theorem explained_define (typed : s.symbols.WellTyped) (sized : s.symbols.Sized) (d : Definition) :
    ∀ i ∈ (s.define d).issues, i.Explained := by
  unfold define
  refine Checked.forall_issues_bind (explained_eval _ _) fun declared _ => ?_
  refine Checked.forall_issues_bind (explained_declaredType _ _) fun type ht => ?_
  refine Checked.forall_issues_bind (explained_eval _ _) fun value hv => ?_
  refine Checked.forall_issues_bind (fun i mem => ?_) fun _ _ => List.forall_mem_nil _
  obtain ⟨-, storable⟩ := declaredType_eq_some.1 ht
  obtain ⟨x, hx, size⟩ := eval_sized sized storable hv
  rcases (mem_issues_store (Annotated.number?_of_valuation hx)).1 mem with
    ⟨misfit, refused, rfl⟩ | ⟨stored, -, -, rfl⟩
  · refine Scalar.outOfRange_of_bind size.normal (fun words kind => ?_) refused
    obtain ⟨y, hy, whole⟩ := eval_integer typed kind hv
    obtain rfl : x = y := by simpa [hx] using hy
    exact whole
  · trivial

end Scope

theorem explained_of_mem_refusals {ks ds : List Definition} {i : Issue}
    (h : i ∈ refusals ks ds) : i.Explained := by
  have code := code_of_mem_refusals h
  cases i with
  | literalMisfit | valueMisfit => rcases code with code | code <;> contradiction
  | _ => trivial

/-! ## Whole programs -/

/-- In every scope of a run, an expression that is evaluated for an integer type comes to an integer
at each of its nodes, so that at most its size stands against its being stored. A number that is
not an integer is stopped where it is written, whatever stands around it. So a resolution refuses
the value of a definition for its size only, and as no integer only a literal that is none. -/
theorem Program.integers_kept (p : Program) :
    (∀ s, p.Reaches s → ∀ type words, type.words? = some words → ∀ e : Expr,
      (∀ a, (s.eval (.scalar type) e).result = some a →
        (∀ node ∈ a.nodes, ∃ (x : Decimal) (n : ℤ),
          node.valuation = ⟨.scalar type, some (.number x)⟩ ∧ x.toInt? = some n ∧ x.toRat = n) ∧
        ∀ i ∈ (Scope.store type a).issues,
          ∃ x, a.number? = some x ∧ i = .valueMisfit x a.span type .outOfRange) ∧
      ∀ (n : Numeral) (span : Span), .literal n span ∈ e.nodes → (∀ m : ℤ, n.toRat ≠ m) →
        (s.eval (.scalar type) e).result = none ∧
          (.literalMisfit n span type .notIntegral ∈ (s.eval (.scalar type) e).issues ∨
            n.value? = none ∧ .exponentOutOfRange n span ∈ (s.eval (.scalar type) e).issues)) ∧
    ∃ r, p.resolve = .ok r ∧
      (∀ x span type misfit, .valueMisfit x span type misfit ∈ r.issues →
        misfit = .outOfRange) ∧
      ∀ (n : Numeral) span type, .literalMisfit n span type .notIntegral ∈ r.issues →
        (∃ words, type.words? = some words) ∧ ∀ m : ℤ, n.toRat ≠ m := by
  refine ⟨fun s reached type words kind e => ?_, ?_⟩
  · have typed := Symbols.inductive_wellTyped.of_reaches reached
    have sized := Symbols.inductive_sized.of_reaches reached
    refine ⟨fun a h => ⟨fun node mem => ?_, fun i said => ?_⟩, fun n span mem other => ?_⟩
    · obtain ⟨part, -, hp⟩ := Scope.exists_eval_of_mem_nodes h mem
      obtain ⟨x, n, hx, -, whole, same⟩ := Scope.eval_toInt? typed sized kind hp
      exact ⟨x, n, hx, whole, same⟩
    · obtain ⟨x, n, hx, normal, -, same⟩ := Scope.eval_toInt? typed sized kind h
      have number := Annotated.number?_of_valuation hx
      exact ⟨x, number, Scope.eq_of_mem_issues_store kind number normal ⟨n, same.symm⟩ said⟩
    · have stopped {i : Issue} (said : i ∈ (s.eval (.scalar type) (.literal n span)).issues) :=
        Scope.stopped_of_leaf typed.known rfl mem said
      rcases Scope.issues_literal_of_words? kind span other with own | ⟨large, own⟩
      · obtain ⟨missing, said⟩ := stopped (own ▸ List.mem_singleton_self _)
        exact ⟨missing, .inl said⟩
      · obtain ⟨missing, said⟩ := stopped (own ▸ List.mem_singleton_self _)
        exact ⟨missing, .inr ⟨large, said⟩⟩
  · obtain ⟨complete, issues, resolved⟩ := p.exists_resolve_eq
    have explained : ∀ i ∈ issues, i.Explained := by
      intro i mem
      rcases (mem_issues_iff resolved).1 mem with refused | ⟨s, d, visits, said⟩
      · exact explained_of_mem_refusals refused
      · exact Scope.explained_define (Symbols.inductive_wellTyped.of_visits visits)
          (Symbols.inductive_sized.of_visits visits) d i said
    refine ⟨_, resolved, fun x span type misfit mem => explained _ mem, fun n span type mem => ?_⟩
    obtain ⟨x, hx, fraction⟩ := explained _ mem
    rw [← Numeral.toRat_of_value? hx]
    exact (Scalar.misfit?_eq_notIntegral_iff (Decimal.isNormal_ofDigits hx)).1 fraction

/-! `low : u1 = 60 - 60 * 60 ; part : u1 = 60.125 * 60 ;` -/

namespace Whole

open Redefined

def definition (name : String) (value : Expr) : Definition :=
  ⟨⟨name, origin⟩, origin, .access ⟨"u1", origin⟩, origin, value, origin⟩

def sixty : Expr := .literal ⟨⟨"60", rfl⟩, none, none⟩ origin

def excess : Expr := .binary .subtract origin sixty (.binary .multiply origin sixty sixty)

def fraction : Numeral := ⟨⟨"60", rfl⟩, some ⟨"125", rfl⟩, none⟩

def scaled : Expr := .binary .multiply origin (.literal fraction origin) sixty

def program : Program := ⟨[definition "low" excess, definition "part" scaled], origin⟩

def number (x : Decimal) : Valuation := ⟨.scalar .u1, some (.number x)⟩

/-- The product is too large for its type, and the difference is negative. -/
def valued : Annotated :=
  .two excess.span (number ⟨-354, 1⟩) (.leaf origin (number ⟨6, 1⟩))
    (.two (origin.cover origin) (number ⟨36, 2⟩) (.leaf origin (number ⟨6, 1⟩))
      (.leaf origin (number ⟨6, 1⟩)))

end Whole

open Redefined Whole in
theorem Program.integers_kept_outside :
    program.Reaches .builtins ∧
    (Scope.builtins.eval (.scalar .u1) excess).result = some valued ∧
    (∀ node ∈ valued.nodes, ∃ (x : Decimal) (n : ℤ),
      node.valuation = ⟨.scalar .u1, some (.number x)⟩ ∧ x.toInt? = some n ∧ x.toRat = n) ∧
    (∀ i ∈ (Scope.store .u1 valued).issues,
      ∃ x, valued.number? = some x ∧ i = .valueMisfit x valued.span .u1 .outOfRange) ∧
    (Scope.builtins.eval (.scalar .u1) scaled).result = none ∧
    ∃ r, program.resolve = .ok r ∧
      .valueMisfit ⟨-354, 1⟩ excess.span .u1 .outOfRange ∈ r.issues ∧
      .literalMisfit fraction origin .u1 .notIntegral ∈ r.issues ∧
      ∀ m : ℤ, fraction.toRat ≠ m := by
  have reached : program.Reaches (Pass.start .builtins).scope :=
    .collecting (List.nil_append _).symm rfl
  have evaluated : (Scope.builtins.eval (.scalar .u1) excess).result = some valued := by
    decide +kernel
  have issues : program.resolve.toOption.map Resolution.issues =
      some [.valueMisfit ⟨-354, 1⟩ excess.span .u1 .outOfRange,
        .literalMisfit fraction origin .u1 .notIntegral] := by decide +kernel
  obtain ⟨evaluations, r, resolved, -, fractions⟩ := integers_kept program
  rw [resolved] at issues
  have issues : r.issues = _ := Option.some.inj issues
  have low : .valueMisfit ⟨-354, 1⟩ excess.span .u1 .outOfRange ∈ r.issues := by simp [issues]
  have part : .literalMisfit fraction origin .u1 .notIntegral ∈ r.issues := by simp [issues]
  obtain ⟨-, other⟩ := fractions fraction origin .u1 part
  obtain ⟨whole, -⟩ := evaluations _ reached .u1 _ rfl excess
  obtain ⟨-, stopped⟩ := evaluations _ reached .u1 _ rfl scaled
  obtain ⟨nodes, stored⟩ := whole valued evaluated
  obtain ⟨missing, -⟩ := stopped fraction origin (by decide) other
  exact ⟨reached, evaluated, nodes, stored, missing, r, resolved, low, part, other⟩

end ConstLang
