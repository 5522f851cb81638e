import ConstLang.Proofs.Evaluation.Success
import ConstLang.Proofs.Resolution.Interpreter
import ConstLang.Proofs.Resolution.Run
import Mathlib.Data.List.Basic

/-!
# Two passes and one

The resolver defers all definitions before it resolves the first one, and looks at the deferred
ones while it evaluates. Its variables are those of the interpreter all the same: what is deferred
changes what is reported and never a result, and the definitions that are deferred are the ones
that the interpreter does not skip. On the way no step of the resolver faults.
-/

namespace ConstLang

/-! ## Evaluation -/

theorem Checked.result_bind {α β : Type} (x : Checked α) (f : α → Checked β) :
    (x >>= f).result = x.result.bind fun a => (f a).result := by
  change (x.bind f).result = _
  unfold Checked.bind
  cases x.result <;> rfl

namespace Scope

theorem result_evalOperation (op : Operator) (type : Scalar) (span : Span)
    (left right : Annotated) :
    (evalOperation op type span left right).result =
      Interpreter.operate? op type span left right := by
  unfold evalOperation Interpreter.operate?
  cases left.number? with
  | none => rfl
  | some x =>
    cases right.number? with
    | none => rfl
    | some y => cases hz : op.apply? type x y <;> simp [hz]

/-- Results do not depend on what is pending. -/
theorem result_eval (s : Scope) (expected : Ty) (e : Expr) :
    (s.eval expected e).result = Interpreter.eval? s.symbols.get? expected e := by
  induction e with
  | literal n span =>
    cases expected with
    | metatype => simp [eval, evalLiteral, Interpreter.eval?]
    | scalar type =>
      simp only [eval, evalLiteral, Interpreter.eval?]
      cases n.value? with
      | none => rfl
      | some x => cases hm : type.misfit? x <;> simp [hm]
  | access name =>
    simp only [eval, evalName, resolved?, Interpreter.eval?]
    cases s.symbols.get? name.text with
    | none => cases s.pending? name.text <;> rfl
    | some symbol => by_cases ht : symbol.type = expected <;> simp [ht]
  | group opening inner closing ih =>
    rw [eval, Interpreter.eval?, Checked.result_bind, ih]
    rfl
  | unary sign span operand ih =>
    rw [eval, Interpreter.eval?, Checked.result_bind, ih]
    congr 1
    funext o
    cases o.valuation.type <;> simp
  | binary op span left right ihl ihr =>
    cases expected with
    | metatype => simp [eval, Interpreter.eval?]
    | scalar type =>
      rw [eval, Interpreter.eval?, Checked.result_bind, Checked.both, ihl, ihr]
      cases Interpreter.eval? s.symbols.get? (.scalar type) left with
      | none => rfl
      | some l =>
        cases Interpreter.eval? s.symbols.get? (.scalar type) right with
        | none => rfl
        | some r => exact result_evalOperation op type _ l r

theorem result_declaredType (name : Name) (declared : Annotated) :
    (declaredType name declared).result = Interpreter.variableType? declared := by
  unfold declaredType Interpreter.variableType?
  cases declared.valuation.type? with
  | none => rfl
  | some t =>
    cases t with
    | metatype => rfl
    | scalar type => cases hs : type.isStorable <;> simp [hs]

theorem result_store (type : Scalar) (value : Annotated) :
    (store type value).result = Interpreter.bind? type value := by
  unfold store Interpreter.bind?
  cases value.number? with
  | none => rfl
  | some x => cases hb : type.bind x <;> simp [hb, Except.toOption]

theorem result_define (s : Scope) (d : Definition) :
    (s.define d).result = Interpreter.define? s.symbols.get? d := by
  simp only [define, Checked.result_bind, result_eval, result_declaredType, result_store]
  rfl

end Scope

/-! ## The first pass -/

/-- The definitions that are deferred after one more was collected. -/
def keep (ds : List Definition) (d : Definition) : List Definition :=
  if Scope.isBuiltin d.name.text = true ∨ d.name.text ∈ ds.map (·.name.text) then ds
  else ds ++ [d]

/-- Definitions with names of their own, none of which is a built-in type. -/
structure Distinct (ds : List Definition) : Prop where
  nodup : (ds.map (·.name.text)).Nodup
  free : ∀ d ∈ ds, Scope.isBuiltin d.name.text = false

theorem Distinct.empty : Distinct [] := ⟨List.nodup_nil, fun _ h => nomatch h⟩

theorem Distinct.keep {ds : List Definition} (h : Distinct ds) (d : Definition) :
    Distinct (keep ds d) := by
  unfold ConstLang.keep
  split
  · exact h
  · next fresh =>
    obtain ⟨builtin, new⟩ := not_or.1 fresh
    refine ⟨?_, ?_⟩
    · rw [List.map_append, List.nodup_append]
      refine ⟨h.nodup, by simp, fun n hn m hm => ?_⟩
      obtain rfl := List.mem_singleton.1 hm
      exact ne_of_mem_of_not_mem hn new
    · intro e he
      rcases List.mem_append.1 he with he | he
      · exact h.free e he
      · obtain rfl := List.mem_singleton.1 he
        exact Bool.eq_false_iff.2 builtin

theorem Distinct.foldl_keep {ds : List Definition} (h : Distinct ds) (es : List Definition) :
    Distinct (es.foldl ConstLang.keep ds) := by
  induction es generalizing ds with
  | nil => exact h
  | cons e es ih => exact ih (h.keep e)

/-- The scope in which definitions are deferred, and none is settled. -/
def Scope.deferred (ds : List Definition) : Scope := ⟨⟨[]⟩, ds, ds.map (·.name.text)⟩

theorem Scope.resolved?_eq_none_iff {s : Scope} {name : String} :
    s.resolved? name = none ↔
      Scope.isBuiltin name = false ∧ name ∉ s.symbols.vars.map (·.name.text) := by
  unfold resolved? Symbols.get? isBuiltin
  cases Scalar.ofName? name <;> simp

theorem Scope.isSome_pending? {s : Scope} {name : String} :
    (s.pending? name).isSome = true ↔ name ∈ s.pending.map (·.name.text) := by
  simp [pending?]

theorem Scope.pending?_eq_none_iff {s : Scope} {name : String} :
    s.pending? name = none ↔ name ∉ s.pending.map (·.name.text) := by
  rw [← isSome_pending?, Option.not_isSome_iff_eq_none]

theorem Scope.defer_deferred {ds : List Definition} {d : Definition}
    (builtin : isBuiltin d.name.text = false) (new : d.name.text ∉ ds.map (·.name.text)) :
    (deferred ds).defer d = .ok (deferred (ds ++ [d])) := by
  have unresolved : (deferred ds).resolved? d.name.text = none :=
    resolved?_eq_none_iff.2 ⟨builtin, by simp [deferred]⟩
  have unknown := mt (isSome_pending? (s := deferred ds)).1 new
  rw [defer, if_neg (by simp [unresolved, unknown])]
  simp [deferred]

theorem Pass.collect_deferred {p : Pass} {ds : List Definition} (h : p.scope = .deferred ds)
    (d : Definition) : ∃ q, p.collect d = .ok q ∧ q.scope = .deferred (keep ds d) := by
  unfold collect keep
  by_cases builtin : Scope.isBuiltin d.name.text = true
  · exact ⟨_, if_pos builtin, by rw [if_pos (.inl builtin)]; exact h⟩
  · have known : ((Scope.deferred ds).pending? d.name.text).isSome = true ↔
        d.name.text ∈ ds.map (·.name.text) := Scope.isSome_pending?
    rw [if_neg builtin, h]
    cases hp : (Scope.deferred ds).pending? d.name.text with
    | some earlier =>
      have declared := known.1 (hp ▸ rfl)
      exact ⟨_, rfl, by rw [if_pos (.inr declared)]; exact h⟩
    | none =>
      have new := mt known.2 (Option.not_isSome_iff_eq_none.2 hp)
      rw [Scope.defer_deferred (Bool.eq_false_iff.2 builtin) new]
      exact ⟨_, rfl, by rw [if_neg (not_or.2 ⟨builtin, new⟩)]⟩

theorem Pass.foldlM_collect {p : Pass} {ds : List Definition} (h : p.scope = .deferred ds)
    (es : List Definition) :
    ∃ q, es.foldlM Pass.collect p = .ok q ∧ q.scope = .deferred (es.foldl keep ds) := by
  induction es generalizing p ds with
  | nil => exact ⟨p, rfl, h⟩
  | cons e es ih =>
    obtain ⟨q, hq, scope⟩ := Pass.collect_deferred h e
    rw [List.foldlM_cons, hq]
    exact ih scope

theorem pendingInOrder_deferred {ds : List Definition} (h : (ds.map (·.name.text)).Nodup) :
    (Scope.deferred ds).pendingInOrder = ds := by
  have found : ∀ d ∈ ds, (Scope.deferred ds).pending? d.name.text = some d := by
    intro d hd
    exact find?_of_nodup (fun e : Definition => e.name.text) h hd
  change (ds.map (·.name.text)).filterMap _ = ds
  rw [List.filterMap_map]
  exact (List.filterMap_congr found).trans List.filterMap_some

/-! ## The second pass -/

theorem Scope.insert_eq_ok {s : Scope} {v : Variable}
    (settled : v.name.text ∉ s.pending.map (·.name.text))
    (free : s.resolved? v.name.text = none) :
    s.insert v = .ok { s with symbols := ⟨s.symbols.vars ++ [v]⟩ } := by
  rw [insert, if_neg (mt isSome_pending?.1 settled), if_neg (by simp [free])]

/-- What is left to resolve are definitions with distinct names that have no meaning yet. -/
structure Scope.Ready (s : Scope) (ds : List Definition) : Prop where
  pending : s.pending = ds
  nodup : (ds.map (·.name.text)).Nodup
  free : ∀ d ∈ ds, s.resolved? d.name.text = none

/-- What the interpreter makes of a definition that it does not skip. -/
def Interpreter.add (vars : List Variable) (d : Definition) : List Variable :=
  vars ++ (define? (Symbols.mk vars).get? d).toList

theorem Pass.resolve_ready {p : Pass} {d : Definition} {ds : List Definition}
    (h : p.scope.Ready (d :: ds)) :
    ∃ q, p.resolve d = .ok q ∧ q.scope.Ready ds ∧
      q.scope.symbols.vars = Interpreter.add p.scope.symbols.vars d := by
  obtain ⟨new, nodup⟩ := List.nodup_cons.1 h.nodup
  have others : (d :: ds).filter (fun e => e.name.text ≠ d.name.text) = ds := by
    rw [List.filter_cons_of_neg (by simp), List.filter_eq_self]
    intro e he
    simpa using ne_of_mem_of_not_mem (List.mem_map_of_mem he) new
  have settled : p.scope.settle d.name.text = .ok { p.scope with pending := ds } := by
    have known : (p.scope.pending? d.name.text).isSome = true :=
      Scope.isSome_pending?.2 (by simp [h.pending])
    rw [Scope.settle, if_pos known, h.pending, others]
  have result := p.scope.result_define d
  unfold resolve
  simp only [settled, ok_bind]
  cases hv : (p.scope.define d).result with
  | none =>
    rw [hv] at result
    refine ⟨_, rfl, ⟨rfl, nodup, fun e he => h.free e (List.mem_cons_of_mem _ he)⟩, ?_⟩
    rw [Interpreter.add, ← result]
    simp
  | some v =>
    rw [hv] at result
    have name : v.name = d.name := Interpreter.name_of_define? result.symm
    have inserted := Scope.insert_eq_ok (s := { p.scope with pending := ds }) (v := v)
      (name ▸ new) (name ▸ h.free d (by simp))
    simp only [inserted, ok_bind]
    refine ⟨_, rfl, ⟨rfl, nodup, fun e he => ?_⟩, ?_⟩
    · have other := ne_of_mem_of_not_mem (List.mem_map_of_mem he) new
      have unresolved := Scope.resolved?_eq_none_iff.1 (h.free e (List.mem_cons_of_mem _ he))
      refine Scope.resolved?_eq_none_iff.2 ⟨unresolved.1, ?_⟩
      simpa [name, other] using unresolved.2
    · rw [Interpreter.add, ← result]
      simp

theorem Pass.foldlM_resolve {p : Pass} {ds : List Definition} (h : p.scope.Ready ds) :
    ∃ q, ds.foldlM Pass.resolve p = .ok q ∧ q.scope.pending = [] ∧
      q.scope.symbols.vars = ds.foldl Interpreter.add p.scope.symbols.vars := by
  induction ds generalizing p with
  | nil => exact ⟨p, rfl, h.pending, rfl⟩
  | cons d ds ih =>
    obtain ⟨q, hq, ready, vars⟩ := Pass.resolve_ready h
    obtain ⟨r, hr, pending, final⟩ := ih ready
    rw [List.foldlM_cons, hq]
    exact ⟨r, hr, pending, by rw [final, vars]; rfl⟩

/-! ## Both passes -/

/-- The run of the interpreter over definitions that it does not skip. -/
def Interpreter.ofKept (ds : List Definition) : Interpreter :=
  ⟨ds.map (·.name.text), ds.foldl add []⟩

theorem Interpreter.step_ofKept (ds : List Definition) (d : Definition) :
    (ofKept ds).step d = ofKept (keep ds d) := by
  by_cases h : (ofKept ds).Skips d.name.text
  · rw [step_of_skips h, keep, if_pos (by exact h)]
  · rw [step_of_not_skips h, keep, if_neg (by exact h)]
    simp [ofKept, add, env]

theorem Interpreter.foldl_step_ofKept (ds ks : List Definition) :
    ds.foldl step (ofKept ks) = ofKept (ds.foldl keep ks) := by
  induction ds generalizing ks with
  | nil => rfl
  | cons d ds ih => rw [List.foldl_cons, List.foldl_cons, step_ofKept, ih]

theorem Interpreter.run_eq_ofKept (ds : List Definition) : run ds = ofKept (ds.foldl keep []) :=
  foldl_step_ofKept ds []

/-- Both passes come to an end, and leave nothing pending and the variables of the interpreter. -/
theorem Program.exists_passes (p : Program) :
    ∃ collected resolved, Scope.builtins.collect p.definitions = .ok collected ∧
      collected.scope.resolvePending = .ok resolved ∧ resolved.scope.pending = [] ∧
      resolved.scope.symbols = ⟨(Interpreter.run p.definitions).vars⟩ := by
  obtain ⟨collected, hc, scope⟩ :=
    Pass.foldlM_collect (rfl : (Pass.start .builtins).scope = .deferred []) p.definitions
  have distinct := Distinct.empty.foldl_keep p.definitions
  have ready : (Pass.start collected.scope).scope.Ready (p.definitions.foldl keep []) := by
    refine ⟨by rw [Pass.start, scope]; rfl, distinct.nodup, fun d hd => ?_⟩
    refine Scope.resolved?_eq_none_iff.2 ⟨distinct.free d hd, ?_⟩
    simp [Pass.start, scope, Scope.deferred]
  obtain ⟨resolved, hr, pending, vars⟩ := Pass.foldlM_resolve ready
  refine ⟨collected, resolved, hc, ?_, pending, ?_⟩
  · rw [Scope.resolvePending]
    rw [scope] at hr ⊢
    rwa [pendingInOrder_deferred distinct.nodup]
  · rw [Interpreter.run_eq_ofKept]
    change Symbols.mk resolved.scope.symbols.vars = _
    rw [vars, Pass.start, scope]
    rfl

/-- Resolution never faults, and its variables are those of the interpreter. -/
theorem Program.exists_resolve_eq (p : Program) :
    ∃ complete issues,
      p.resolve = .ok ⟨complete, ⟨(Interpreter.run p.definitions).vars⟩, issues⟩ := by
  obtain ⟨collected, resolved, hc, hr, settled, symbols⟩ := p.exists_passes
  refine ⟨collected.complete && resolved.complete, collected.issues ++ resolved.issues, ?_⟩
  unfold resolve Scope.finish
  rw [hc, ok_bind, hr, ok_bind, settled, ← symbols]
  rfl

/-- Resolution never faults, and whether or not it is complete, its variables are those of the
interpreter. So a definition that adds no variable does no harm but to the later ones of its name,
and which definition a name has matters only for those that refer to it, be it through others.
What follows a program changes none of its variables. -/
theorem Program.resolve_refines_interpreter :
    (∀ p : Program, ∃ complete issues,
      p.resolve = .ok ⟨complete, ⟨(Interpreter.run p.definitions).vars⟩, issues⟩) ∧
    (∀ before d after,
      (Interpreter.run (before ++ [d])).vars = (Interpreter.run before).vars →
      (Interpreter.run (before ++ d :: after)).vars =
        (Interpreter.run (before ++ after.filter fun e => e.name.text ≠ d.name.text)).vars) ∧
    (∀ (names : String → Bool) before d e after,
      e.name.text = d.name.text → names d.name.text = true →
      (∀ a ∈ after, (∃ n ∈ a.references, names n = true) → names a.name.text = true) →
      (Interpreter.run (before ++ d :: after)).varsOutside names =
        (Interpreter.run (before ++ e :: after)).varsOutside names) ∧
    ∀ ds es, (Interpreter.run ds).vars <+: (Interpreter.run (ds ++ es)).vars := by
  refine ⟨exists_resolve_eq, fun _ _ _ => Interpreter.vars_run_of_failed,
    fun _ _ _ _ _ => Interpreter.vars_run_of_replaced, fun ds es => ?_⟩
  rw [Interpreter.run_append]
  exact Interpreter.vars_prefix_foldl _ es

/-! `a : i4 = missing ; a : i4 = 5 ; b : i4 = 5 ; c : i4 = a ;` -/

namespace Redefined

def origin : Span := .single (Source.start ⟨0, "", ""⟩)

def five : Numeral := ⟨⟨"5", by decide⟩, none, none⟩

def definition (name : String) (value : Expr) : Definition :=
  ⟨⟨name, origin⟩, origin, .access ⟨"i4", origin⟩, origin, value, origin⟩

def failed : Definition := definition "a" (.access ⟨"missing", origin⟩)

def again : Definition := definition "a" (.literal five origin)

def other : Definition := definition "b" (.literal five origin)

def user : Definition := definition "c" (.access ⟨"a", origin⟩)

/-- The names that depend on which definition of `a` comes first. -/
def names (name : String) : Bool := name = "a" || name = "c"

end Redefined

open Redefined in
theorem Program.resolve_refines_interpreter_redefined :
    (Interpreter.run [failed]).vars = [] ∧
    (Interpreter.run [failed, again, other, user]).vars = (Interpreter.run [other, user]).vars ∧
    (Interpreter.run [failed, other, user]).varsOutside names =
      (Interpreter.run [again, other, user]).varsOutside names ∧
    (Interpreter.run [failed, other, user]).vars.map (·.name.text) = ["b"] ∧
    (Interpreter.run [again, other, user]).vars.map (·.name.text) = ["a", "b", "c"] := by
  have absent : (Interpreter.run [failed]).vars = [] := by decide +kernel
  have left : [again, other, user].filter (fun e => e.name.text ≠ failed.name.text) =
      [other, user] := by decide +kernel
  have apart : ∀ a ∈ [other, user], (∃ n ∈ a.references, names n = true) →
      names a.name.text = true := by decide +kernel
  obtain ⟨-, skipped, replaced, -⟩ := resolve_refines_interpreter
  have without := skipped [] failed [again, other, user] absent
  rw [left] at without
  exact ⟨absent, without, replaced names [] failed again [other, user] rfl rfl apart,
    by decide +kernel, by decide +kernel⟩

end ConstLang
