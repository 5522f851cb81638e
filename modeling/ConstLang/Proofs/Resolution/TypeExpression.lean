import ConstLang.Proofs.Evaluation.Reports
import ConstLang.Proofs.Resolution.Settling

/-!
# Type expressions

Where a type is expected, an expression comes to something exactly if it is the name of a built-in
type, in parentheses or not: variables have numbers, and no operation is one on types. What a type
expression comes to is therefore always a scalar type that is known, and the only thing to say about
the type of a definition is that no variable may have it.
-/

namespace ConstLang

/-- The built-in type that an expression is the name of, in parentheses or not. -/
def Expr.builtin? : Expr → Option Scalar
  | access name => Scalar.ofName? name.text
  | group _ inner _ => inner.builtin?
  | literal _ _ | unary _ _ _ | binary _ _ _ _ => none

/-- An issue is about what a type expression came to. -/
def Issue.judgesType : Issue → Bool
  | metatypeVariable .. | unknownType .. | unstorableType .. => true
  | _ => false

/-! ## Evaluation -/

namespace Checked

variable {α β : Type}

theorem ok_bind (a : α) (f : α → Checked β) : Checked.ok a >>= f = f a := rfl

theorem fail_bind (i : Issue) (f : α → Checked β) :
    (Checked.fail i : Checked α) >>= f = .fail i := rfl

end Checked

namespace Scope

variable {s : Scope} {e : Expr}

theorem eval_builtin {type : Scalar} (h : e.builtin? = some type) :
    ∃ a, s.eval .metatype e = .ok a ∧
      a.valuation = ⟨.metatype, some (.type (.scalar type))⟩ := by
  induction e with
  | access name =>
    have symbol : s.resolved? name.text = some (.builtin type) := by
      have named : Scalar.ofName? name.text = some type := h
      rw [resolved?, Symbols.get?, named]
    refine ⟨.leaf name.span (Symbol.builtin type).valuation, ?_, rfl⟩
    rw [eval, evalName, symbol]
    rfl
  | group opening inner closing ih =>
    obtain ⟨i, evaluated, metatype⟩ := ih h
    refine ⟨.one (opening.cover closing) i.valuation i, ?_, metatype⟩
    rw [eval, evaluated, Checked.ok_bind]
    rfl
  | literal | unary | binary => contradiction

/-- An expression that is no name of a built-in type is refused for one reason. -/
theorem eval_of_builtin?_eq_none (h : e.builtin? = none) :
    ∃ i, s.eval .metatype e = .fail i := by
  induction e with
  | literal n span => exact ⟨_, rfl⟩
  | access name =>
    have other : Scalar.ofName? name.text = none := h
    rw [eval, evalName, resolved?, Symbols.get?, other]
    cases s.symbols.vars.find? fun v => v.name.text = name.text with
    | some v => exact ⟨_, rfl⟩
    | none =>
      dsimp only [Option.map_none]
      split <;> exact ⟨_, rfl⟩
  | group opening inner closing ih =>
    obtain ⟨i, refused⟩ := ih h
    exact ⟨i, by rw [eval, refused, Checked.fail_bind]⟩
  | unary sign span operand ih =>
    rw [eval]
    cases named : operand.builtin? with
    | none =>
      obtain ⟨i, refused⟩ := ih named
      exact ⟨i, by rw [refused, Checked.fail_bind]⟩
    | some type =>
      -- The operand is a type and nothing is wrong with it, so that the sign is what is refused.
      obtain ⟨o, evaluated, metatype⟩ := eval_builtin named
      exact ⟨_, by rw [evaluated, Checked.ok_bind, metatype]⟩
  | binary op span left right => exact ⟨_, rfl⟩

theorem not_judgesType_of_mem_eval {expected : Ty} {i : Issue}
    (mem : i ∈ (s.eval expected e).issues) : i.judgesType = false := by
  obtain ⟨node, -, raised⟩ := exists_raises expected e i mem
  cases raised <;> rfl

theorem not_judgesType_of_mem_store {type : Scalar} {value : Annotated} {i : Issue}
    (mem : i ∈ (store type value).issues) : i.judgesType = false := by
  cases number : value.number? with
  | none =>
    rw [store, number] at mem
    contradiction
  | some x =>
    obtain ⟨misfit, -, rfl⟩ | ⟨stored, -, -, rfl⟩ := (mem_issues_store number).1 mem <;> rfl

/-- What is said of the type of a definition. -/
theorem judgements_define (s : Scope) (d : Definition) :
    (s.define d).issues.filter Issue.judgesType =
      if d.type.builtin? = some .rinf then [.unstorableType d.name .rinf d.type.span] else [] := by
  have silent {is : List Issue} (h : ∀ i ∈ is, i.judgesType = false) :
      is.filter Issue.judgesType = [] := by
    simpa using h
  cases named : d.type.builtin? with
  | none =>
    obtain ⟨i, refused⟩ := eval_of_builtin?_eq_none (s := s) named
    have same : s.define d = .fail i := by rw [define, refused, Checked.fail_bind]
    have other : i.judgesType = false :=
      not_judgesType_of_mem_eval (by rw [refused]; exact List.mem_singleton_self i)
    rw [same]
    exact silent fun j mem => List.mem_singleton.1 mem ▸ other
  | some type =>
    obtain ⟨declared, evaluated, metatype⟩ := eval_builtin (s := s) named
    have known : declared.valuation.type? = some (.scalar type) := by rw [metatype]; rfl
    rw [define, evaluated, Checked.ok_bind, declaredType, known]
    dsimp only
    by_cases unstorable : type = .rinf
    · have place : declared.span = d.type.span :=
        (mirrors_eval (congrArg Checked.result evaluated)).span
      subst unstorable
      rw [place]
      rfl
    · have storable : type.isStorable = true := by simpa [Scalar.isStorable] using unstorable
      rw [if_pos storable, Checked.ok_bind, if_neg (by simpa using unstorable)]
      refine silent ?_
      refine Checked.forall_issues_bind (fun i => not_judgesType_of_mem_eval) fun value _ => ?_
      exact Checked.forall_issues_bind (fun i => not_judgesType_of_mem_store) fun _ _ =>
        List.forall_mem_nil _

end Scope

/-! ## Whole programs -/

theorem judgements_refusals (ks ds : List Definition) :
    (refusals ks ds).filter Issue.judgesType = [] := by
  rw [List.filter_eq_nil_iff]
  intro i mem
  cases i with
  | unknownType | unstorableType | metatypeVariable =>
    rcases code_of_mem_refusals mem with code | code <;> cases code
  | _ => simp [Issue.judgesType]

/-- What a run says of types. -/
theorem Pass.judgements_foldl_next (p : Pass) (ds : List Definition) :
    (ds.foldl next p).issues.filter Issue.judgesType = p.issues.filter Issue.judgesType ++
      (ds.filter fun d => d.type.builtin? = some .rinf).map fun d =>
        .unstorableType d.name .rinf d.type.span := by
  induction ds generalizing p with
  | nil => simp
  | cons d ds ih =>
    rw [List.foldl_cons, ih, issues_next, List.filter_append, Scope.judgements_define,
      List.filter_cons, List.append_assoc]
    by_cases named : d.type.builtin? = some .rinf <;> simp [named]

namespace Program

/-- The definitions that are resolved and name the type that no variable may have. -/
def unstorable (p : Program) : List Definition :=
  (firsts p.definitions).filter fun d => d.type.builtin? = some .rinf

theorem judgements_of_resolve {p : Program} {r : Resolution} (h : p.resolve = .ok r) :
    r.issues.filter Issue.judgesType =
      p.unstorable.map fun d => .unstorableType d.name .rinf d.type.span := by
  have run := p.resolve_eq
  rw [foldl_keep_eq_firsts] at run
  obtain rfl := Except.ok.inj (run.symm.trans h)
  rw [List.filter_append, judgements_refusals, List.nil_append, Pass.judgements_foldl_next]
  rfl

/-- What is reported with a code that only judgements about types have. -/
theorem filter_reports {p : Program} {r : Resolution} (h : p.resolve = .ok r) {c : Code}
    (judges : ∀ i : Issue, i.main.1 = c → i.judgesType = true ∧ i.remark? = none) :
    (r.issues.flatMap Issue.diagnostics).filter (fun d => d.code = some c) =
      if c = .unstorableType then
        p.unstorable.flatMap fun d => (Issue.unstorableType d.name .rinf d.type.span).diagnostics
      else [] := by
  have judged : (r.issues.filter fun i => i.main.1 = c) =
      (r.issues.filter Issue.judgesType).filter fun i => i.main.1 = c := by
    rw [List.filter_filter]
    refine List.filter_congr fun i _ => ?_
    by_cases code : i.main.1 = c
    · simp [code, (judges i code).1]
    · simp [code]
  rw [Issue.filter_code fun i code => (judges i code).2, judged, judgements_of_resolve h,
    List.filter_map]
  by_cases unstorable : c = .unstorableType
  · simp [unstorable, Function.comp_def, Issue.main, List.flatMap_map]
  · simp [Ne.symm unstorable, unstorable, Function.comp_def, Issue.main]

/-- In every scope, an expression that is expected to be a type comes to one exactly if it is the
name of a built-in type, in parentheses or not. It then comes to that type without a word, and
otherwise one error is reported. So the type of a definition that is resolved is always known and
scalar. Of all that can be said of it, nothing ever is but that no variable may be of the type
`rinf`, and that is said of each definition that names it. -/
theorem type_expressions_builtin (p : Program) :
    (∀ (s : Scope) (e : Expr),
      (∀ type, e.builtin? = some type ↔ ∃ a, (s.eval .metatype e).result = some a ∧
        a.valuation = ⟨.metatype, some (.type (.scalar type))⟩) ∧
      (e.builtin? = none ↔ (s.eval .metatype e).result = none) ∧
      let said := (s.eval .metatype e).issues.flatMap Issue.diagnostics
      if e.builtin?.isSome then said = []
      else (said.countP fun d => d.severity = .error) = 1) ∧
    ∃ r, p.resolve = .ok r ∧
      r.issues.filter Issue.judgesType =
        p.unstorable.map (fun d => .unstorableType d.name .rinf d.type.span) ∧
      let said := r.issues.flatMap Issue.diagnostics
      said.filter (fun d => d.code = some .unknownType) = [] ∧
      said.filter (fun d => d.code = some .unstorableType) = p.unstorable.map fun d =>
        ⟨.error, some .unstorableType, .resolving, some d.type.span,
          s!"`rinf` cannot be the type of a variable; give `{d.name.text}` a sized type"⟩ := by
  refine ⟨fun s e => ?_, ?_⟩
  · cases named : e.builtin? with
    | none =>
      obtain ⟨i, refused⟩ := Scope.eval_of_builtin?_eq_none (s := s) named
      have error : i.isRounding = false :=
        Checked.compositional_plain.eval s .metatype e i
          (by rw [refused]; exact List.mem_singleton_self i)
      rw [refused]
      refine ⟨by simp, by simp, ?_⟩
      simpa [Checked.fail] using Issue.countP_error error
    | some type =>
      obtain ⟨a, evaluated, metatype⟩ := Scope.eval_builtin (s := s) named
      rw [evaluated]
      refine ⟨fun other => ?_, by simp, rfl⟩
      simp [metatype]
  · obtain ⟨complete, issues, resolved⟩ := p.exists_resolve_eq
    refine ⟨_, resolved, judgements_of_resolve resolved, ?_, ?_⟩
    · refine (filter_reports resolved fun i => ?_).trans (if_neg (by decide))
      cases i <;> simp [Issue.main, Issue.judgesType, Issue.remark?]
    · refine (filter_reports resolved fun i => ?_).trans ((if_pos rfl).trans ?_)
      · cases i <;> simp [Issue.main, Issue.judgesType, Issue.remark?]
      · exact List.map_eq_flatMap.symm

end Program

/-! `x : ((rinf)) = 1.5 ; y : -i4 = 1.5 ; x : rinf = 1.5 ;` -/

namespace Unstorable

open Clashing (name origin factor)

def rinf : Expr := .access (name "rinf")

def grouped : Expr := .group origin (.group origin rinf origin) origin

def negated : Expr := .unary .minus origin (.access (name "i4"))

def program : Program :=
  ⟨[⟨name "x", origin, grouped, origin, factor, origin⟩,
    ⟨name "y", origin, negated, origin, factor, origin⟩,
    ⟨name "x", origin, rinf, origin, factor, origin⟩], origin⟩

end Unstorable

open Clashing (name)
open Unstorable

/-- The type of a definition that is refused is not looked at. -/
theorem Program.type_expressions_builtin_grouped :
    ∃ r, program.resolve = .ok r ∧
      r.issues.map (·.main.1) = [.redeclaration, .unstorableType, .scalarRequired] ∧
      r.issues.filter Issue.judgesType = [.unstorableType (name "x") .rinf grouped.span] ∧
      ∃ a, (Scope.builtins.eval .metatype grouped).result = some a ∧
        a.valuation = ⟨.metatype, some (.type (.scalar .rinf))⟩ := by
  have run : (program.resolve.toOption.map fun r => r.issues.map (·.main.1)) =
      some [.redeclaration, .unstorableType, .scalarRequired] := by decide +kernel
  obtain ⟨evaluates, r, resolved, judged, -⟩ := type_expressions_builtin program
  obtain ⟨named, -⟩ := evaluates Scope.builtins grouped
  rw [resolved] at run
  exact ⟨r, resolved, Option.some.inj run, judged.trans (by decide +kernel),
    (named .rinf).1 (by decide)⟩

end ConstLang
