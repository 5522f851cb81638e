import ConstLang.Proofs.Evaluation.Denotation
import ConstLang.Proofs.Resolution.Refinement

/-!
# Variables are well typed

Later values are computed from the variables so far, so that these are well typed is needed at each
definition and kept by it. The names of the variables are their own: none is that of a built-in
type, and no two are the same.
-/

namespace ConstLang

/-- The parts of a variable agree on its type: the type expression comes to it, and the value
expression to a number where it is expected, and that number as the type binds it is stored. -/
structure Variable.WellTyped (v : Variable) : Prop where
  storable : v.type ≠ .rinf
  declared : v.declared.valuation = ⟨.metatype, some (.type (.scalar v.type))⟩
  stored : ∃ x y, v.value.valuation = ⟨.scalar v.type, some (.number x)⟩ ∧
    v.valuation = ⟨.scalar v.type, some (.number y)⟩ ∧
    v.type.bind x = .ok y ∧ v.type.misfit? y = none

def Symbols.WellTyped (s : Symbols) : Prop := ∀ v ∈ s.vars, v.WellTyped

/-! ## One definition -/

/-- What a type binds a decimal to, it holds. -/
theorem Scalar.misfit?_of_bind {type : Scalar} {x y : Decimal} (h : type.bind x = .ok y) :
    type.misfit? y = none := by
  unfold bind at h
  dsimp only at h
  split at h
  · contradiction
  · next fits =>
    obtain rfl := Except.ok.inj h
    exact fits

namespace Scope

/-- An expression that is evaluated where a type is expected comes to a scalar type. -/
theorem eval_metatype {s : Scope} {e : Expr} {a : Annotated}
    (h : (s.eval .metatype e).result = some a) :
    ∃ type : Scalar, a.valuation = ⟨.metatype, some (.type (.scalar type))⟩ := by
  induction e generalizing a with
  | literal n span => simp [eval, evalLiteral] at h
  | access name =>
    obtain ⟨symbol, -, metatype, rfl⟩ := eval_access_eq_some.1 h
    cases symbol with
    | builtin type => exact ⟨type, rfl⟩
    | declared v => contradiction
  | group opening inner closing ih =>
    obtain ⟨i, hi, rfl⟩ := eval_group_eq_some.1 h
    obtain ⟨type, metatype⟩ := ih hi
    exact ⟨type, metatype⟩
  | unary sign signSpan operand ih =>
    obtain ⟨o, ho, scalar, -⟩ := eval_unary_eq_some.1 h
    obtain ⟨type, metatype⟩ := ih ho
    exact absurd (congrArg Valuation.type metatype) scalar
  | binary op opSpan left right => simp [eval] at h

theorem define_wellTyped {s : Scope} (known : s.symbols.Known) {d : Definition} {v : Variable}
    (h : (s.define d).result = some v) : v.WellTyped := by
  obtain ⟨-, -, declared, named, storable, value, stored⟩ := define_eq_some.1 h
  obtain ⟨type, metatype⟩ := eval_metatype declared
  obtain ⟨x, hx, -⟩ := eval_denotes known value
  have number : v.value.number? = some x := by simp [Annotated.number?, hx, Valuation.number?]
  obtain ⟨y, bound, stores⟩ := (store_eq_some number).1 stored
  have same : type = v.type := by
    rw [metatype] at named
    exact Ty.scalar.inj (Option.some.inj named)
  refine ⟨by simpa [Scalar.isStorable] using storable, by rw [metatype, same], x, y, hx, ?_, bound,
    Scalar.misfit?_of_bind bound⟩
  rw [stores, hx]

end Scope

/-! ## Whole programs -/

theorem Symbols.WellTyped.known {s : Symbols} (h : s.WellTyped) : s.Known := by
  intro v mem
  obtain ⟨-, y, -, stored, -, -⟩ := (h v mem).stored
  exact ⟨y, stored⟩

theorem Symbols.inductive_wellTyped : Symbols.Inductive Symbols.WellTyped where
  empty v mem := nomatch mem
  insert {s d v} h hv := by
    intro w mem
    rcases List.mem_append.1 mem with mem | mem
    · exact h w mem
    · obtain rfl := List.mem_singleton.1 mem
      exact Scope.define_wellTyped h.known hv

/-- Every variable has the name of a definition, in the order of the definitions. -/
theorem Interpreter.names_foldl_add (vars : List Variable) (ds : List Definition) :
    ((ds.foldl add vars).map (·.name.text)).Sublist
      (vars.map (·.name.text) ++ ds.map (·.name.text)) := by
  induction ds generalizing vars with
  | nil => simp
  | cons d ds ih =>
    have added : ((add vars d).map (·.name.text)).Sublist
        (vars.map (·.name.text) ++ [d.name.text]) := by
      unfold add
      cases hv : define? (Symbols.mk vars).get? d with
      | none => simp
      | some v => simp [name_of_define? hv]
    calc ((ds.foldl add (add vars d)).map (·.name.text)).Sublist _ := ih (add vars d)
      List.Sublist _ (vars.map (·.name.text) ++ [d.name.text] ++ ds.map (·.name.text)) :=
        added.append_right _
      _ = _ := by simp

/-- The names of variables are their own. -/
structure Symbols.Distinct (s : Symbols) : Prop where
  nodup : (s.vars.map (·.name.text)).Nodup
  free : ∀ v ∈ s.vars, Scope.isBuiltin v.name.text = false

theorem Interpreter.distinct_run (ds : List Definition) : Symbols.Distinct ⟨(run ds).vars⟩ := by
  have kept := Distinct.empty.foldl_keep ds
  have names := names_foldl_add [] (ds.foldl keep [])
  rw [run_eq_ofKept]
  refine ⟨kept.nodup.sublist names, fun v mem => ?_⟩
  obtain ⟨d, hd, same⟩ := List.mem_map.1 (names.subset (List.mem_map_of_mem mem))
  rw [← same]
  exact kept.free d hd

/-- A name is that of a built-in type, or of the one variable that is called so. -/
theorem Symbols.Distinct.get?_eq_some_iff {s : Symbols} (h : s.Distinct) {name : String}
    {symbol : Symbol} :
    s.get? name = some symbol ↔
      (∃ type : Scalar, type.name = name ∧ symbol = .builtin type) ∨
        ∃ v ∈ s.vars, v.name.text = name ∧ symbol = .declared v := by
  constructor
  · intro found
    unfold get? at found
    split at found
    · next type named =>
      obtain rfl := Option.some.inj found
      exact .inl ⟨type, Scalar.name_of_ofName? named, rfl⟩
    · obtain ⟨v, hv, rfl⟩ := Option.map_eq_some_iff.1 found
      exact .inr ⟨v, List.mem_of_find?_eq_some hv, by simpa using List.find?_some hv, rfl⟩
  · rintro (⟨type, rfl, rfl⟩ | ⟨v, mem, rfl, rfl⟩)
    · rw [get?, Scalar.ofName?_name]
    · have unnamed : Scalar.ofName? v.name.text = none := by
        simpa [Scope.isBuiltin] using h.free v mem
      rw [get?, unnamed]
      exact congrArg (Option.map Symbol.declared) (find?_of_nodup (·.name.text) h.nodup mem)

/-- Whether or not a resolution is complete, its variables are well typed, and its names are those
of the built-in types, with their meaning, and of the variables. -/
theorem Program.variables_wellTyped (p : Program) :
    ∃ r, p.resolve = .ok r ∧ (∀ v ∈ r.symbols.vars, v.WellTyped) ∧
      ∀ name symbol, r.symbols.get? name = some symbol ↔
        (∃ type : Scalar, type.name = name ∧ symbol = .builtin type) ∨
          ∃ v ∈ r.symbols.vars, v.name.text = name ∧ symbol = .declared v := by
  obtain ⟨complete, issues, resolved⟩ := p.exists_resolve_eq
  have typed := Symbols.inductive_wellTyped.of_program resolved
  have distinct := Interpreter.distinct_run p.definitions
  exact ⟨_, resolved, typed, fun _ _ => distinct.get?_eq_some_iff⟩

/-! `i4 : u1 = 1.5 ; x : (f4) = 1.5 * 1.234567 ; y : f8 = x ;` -/

namespace Clashing

def origin : Span := .single (Source.start ⟨0, "", ""⟩)

def name (text : String) : Name := ⟨text, origin⟩

def literal (whole fraction : DigitRun) : Expr := .literal ⟨whole, some fraction, none⟩ origin

def factor : Expr := literal ⟨"1", rfl⟩ ⟨"5", rfl⟩

def product : Expr :=
  .binary .multiply origin factor (literal ⟨"1", rfl⟩ ⟨"234567", rfl⟩)

def program : Program :=
  ⟨[⟨name "i4", origin, .access (name "u1"), origin, factor, origin⟩,
    ⟨name "x", origin, .group origin (.access (name "f4")) origin, origin, product, origin⟩,
    ⟨name "y", origin, .access (name "f8"), origin, .access (name "x"), origin⟩], origin⟩

def typeF4 : Valuation := ⟨.metatype, some (.type (.scalar .f4))⟩

def number (x : Decimal) : Valuation := ⟨.scalar .f4, some (.number x)⟩

/-- The product has one digit more than its type keeps. -/
def variableX : Variable :=
  ⟨name "x", .f4, .one origin typeF4 (.leaf origin typeF4), product,
    .two origin (number ⟨18518505, -7⟩) (.leaf origin (number ⟨15, -1⟩))
      (.leaf origin (number ⟨1234567, -6⟩)),
    number ⟨1851851, -6⟩⟩

end Clashing

open Clashing in
theorem Program.variables_wellTyped_clashing :
    ∃ r, program.resolve = .ok r ∧ r.complete = false ∧ r.symbols.vars = [variableX] ∧
      variableX.WellTyped ∧ r.symbols.get? "i4" = some (.builtin .i4) ∧
      r.symbols.get? "x" = some (.declared variableX) := by
  have run : (program.resolve.toOption.map fun r => (r.complete, r.symbols.vars)) =
      some (false, [variableX]) := by decide +kernel
  obtain ⟨r, resolved, typed, named⟩ := variables_wellTyped program
  rw [resolved] at run
  obtain ⟨failed, vars⟩ := Prod.mk.inj (Option.some.inj run)
  have mem : variableX ∈ r.symbols.vars := vars ▸ List.mem_singleton_self _
  exact ⟨r, resolved, failed, vars, typed _ mem, (named _ _).2 (.inl ⟨.i4, rfl, rfl⟩),
    (named _ _).2 (.inr ⟨_, mem, rfl, rfl⟩)⟩

end ConstLang
