import ConstLang.Proofs.Layout.Evaluation
import ConstLang.Resolution

/-!
# Resolution does not depend on places

Moving the definitions moves the scope after each step of a pass, and with it the symbols and the
issues of a program. Scopes know definitions by their names alone, so that no step of a pass looks
at a span.
-/

namespace ConstLang

variable (o : Span)

/-! ## Steps in a row -/

section

variable {ε α β γ : Type}

/-- A step that goes with `f` and `g`, after one that goes with `f`. -/
theorem bind_eq_map {f : α → α} {g : β → β} {x y : Except ε α} {next next' : α → Except ε β}
    (outcome : y = x.map f) (step : ∀ a, next' (f a) = (next a).map g) :
    y >>= next' = (x >>= next).map g := by
  subst outcome
  cases x with
  | error e => rfl
  | ok a => exact step a

/-- A run goes with `f` if each of its steps does. -/
theorem foldlM_map {f : β → β} {g : α → α} {run : β → α → Except ε β}
    (step : ∀ b a, run (f b) (g a) = (run b a).map f) (b : β) (as : List α) :
    (as.map g).foldlM run (f b) = (as.foldlM run b).map f := by
  induction as generalizing b with
  | nil => rfl
  | cons a as ih =>
    rw [List.map_cons, List.foldlM_cons, List.foldlM_cons]
    exact bind_eq_map (step b a) ih

end

/-! ## Scopes -/

namespace Scope

variable (s : Scope)

theorem defer_moved (d : Definition) :
    (s.moved o).defer (d.moved o) = (s.defer d).map (moved o) := by
  rw [defer, defer, Definition.text_moved, resolved?_moved, pending?_moved, Option.isSome_map,
    Option.isSome_map]
  split
  · rfl
  · rw [Except.map, moved, moved, List.map_append]
    rfl

theorem pendingInOrder_moved :
    (s.moved o).pendingInOrder = s.pendingInOrder.map (Definition.moved o) := by
  rw [pendingInOrder, pendingInOrder, List.map_filterMap]
  exact congrArg (List.filterMap · s.queue) (funext (pending?_moved o s))

theorem settle_moved (name : String) :
    (s.moved o).settle name = (s.settle name).map (moved o) := by
  rw [settle, settle, pending?_moved, Option.isSome_map]
  split
  · rw [Except.map, moved, moved, List.filter_map]
    rfl
  · rfl

theorem insert_moved (v : Variable) :
    (s.moved o).insert (v.moved o) = (s.insert v).map (moved o) := by
  rw [insert, insert, Variable.text_moved, resolved?_moved, pending?_moved, Option.isSome_map,
    Option.isSome_map]
  split
  · rfl
  · split
    · rfl
    · rw [Except.map, moved, moved, Symbols.moved, Symbols.moved, List.map_append]
      rfl

theorem finish_moved : (s.moved o).finish = s.finish.map (Symbols.moved o) := by
  rw [finish, finish, moved, List.isEmpty_map]
  split <;> rfl

end Scope

/-! ## Passes -/

namespace Pass

def moved (p : Pass) : Pass := ⟨p.scope.moved o, p.complete, p.issues.map (Issue.moved o)⟩

@[simp] theorem scope_moved (p : Pass) : (p.moved o).scope = p.scope.moved o := rfl

theorem refuse_moved (p : Pass) (i : Issue) :
    (p.moved o).refuse (i.moved o) = (p.refuse i).moved o := by
  rw [refuse, refuse, moved, moved, List.map_append]
  rfl

theorem collect_moved (p : Pass) (d : Definition) :
    (p.moved o).collect (d.moved o) = (p.collect d).map (moved o) := by
  rw [collect, collect, Definition.text_moved, scope_moved, Scope.pending?_moved]
  split
  · exact congrArg Except.ok (refuse_moved o p (.builtinName d.name))
  · cases p.scope.pending? d.name.text with
    | some earlier => exact congrArg Except.ok (refuse_moved o p (.redeclared d.name earlier.name))
    | none =>
      rw [Option.map_none, Scope.defer_moved]
      cases p.scope.defer d <;> rfl

theorem resolve_moved (p : Pass) (d : Definition) :
    (p.moved o).resolve (d.moved o) = (p.resolve d).map (moved o) := by
  have issues : (p.moved o).issues ++ (p.scope.define d).issues.map (Issue.moved o) =
      (p.issues ++ (p.scope.define d).issues).map (Issue.moved o) := List.map_append.symm
  rw [resolve, resolve, Definition.text_moved, scope_moved, Scope.define_moved,
    Checked.issues_moved, Checked.result_moved, issues]
  refine bind_eq_map (Scope.settle_moved o p.scope _) fun settled => ?_
  cases (p.scope.define d).result with
  | none => rfl
  | some v =>
    rw [Option.map_some]
    exact bind_eq_map (Scope.insert_moved o settled v) fun inserted => rfl

end Pass

def Resolution.moved (r : Resolution) : Resolution :=
  ⟨r.complete, r.symbols.moved o, r.issues.map (Issue.moved o)⟩

theorem Program.resolve_moved (p : Program) :
    (p.moved o).resolve = p.resolve.map (Resolution.moved o) := by
  have collected : Scope.builtins.collect (p.moved o).definitions =
      (Scope.builtins.collect p.definitions).map (Pass.moved o) :=
    foldlM_map (Pass.collect_moved o) (Pass.start Scope.builtins) p.definitions
  refine bind_eq_map collected fun q => ?_
  have resolved : (q.scope.moved o).resolvePending = q.scope.resolvePending.map (Pass.moved o) := by
    rw [Scope.resolvePending, Scope.pendingInOrder_moved]
    exact foldlM_map (Pass.resolve_moved o) (Pass.start q.scope) q.scope.pendingInOrder
  refine bind_eq_map resolved fun r => ?_
  refine bind_eq_map (Scope.finish_moved o r.scope) fun symbols => ?_
  simp only [pure, Except.pure, Except.map, Resolution.moved, List.map_append]
  rfl

end ConstLang
