import ConstLang.Evaluation

/-!
# Resolution

The definitions of a program are first collected, so that a name that is used too early is told
from one that does not exist, and are then resolved in order. A definition that fails is left out,
and what does not depend on it goes on.
-/

namespace ConstLang

/-- The state of a pass over definitions: the scope, whether every definition went through, and
the issues of those before. -/
structure Pass where
  scope : Scope
  complete : Bool
  issues : List Issue
deriving DecidableEq

namespace Pass

/-- A pass that has seen no definition. -/
def start (s : Scope) : Pass := ⟨s, true, []⟩

def refuse (p : Pass) (i : Issue) : Pass := { p with complete := false, issues := p.issues ++ [i] }

/-- Defers a definition, unless its name is taken. -/
def collect (p : Pass) (d : Definition) : Except Fault Pass :=
  if Scope.isBuiltin d.name.text then .ok (p.refuse (.builtinName d.name))
  else
    match p.scope.pending? d.name.text with
    | some earlier => .ok (p.refuse (.redeclared d.name earlier.name))
    | none => (p.scope.defer d).map fun scope => { p with scope := scope }

/-- Settles a definition, and inserts its variable if it has one. -/
def resolve (p : Pass) (d : Definition) : Except Fault Pass := do
  let outcome := p.scope.define d
  let issues := p.issues ++ outcome.issues
  let scope ← p.scope.settle d.name.text
  match outcome.result with
  | some v => return { p with scope := ← scope.insert v, issues := issues }
  | none => return ⟨scope, false, issues⟩

end Pass

namespace Scope

/-- Collects definitions into a scope. -/
def collect (s : Scope) (ds : List Definition) : Except Fault Pass :=
  ds.foldlM Pass.collect (Pass.start s)

/-- Resolves the pending definitions of a scope. -/
def resolvePending (s : Scope) : Except Fault Pass :=
  s.pendingInOrder.foldlM Pass.resolve (Pass.start s)

end Scope

/-- Whether a program was resolved, with its symbols and the issues in order. -/
structure Resolution where
  complete : Bool
  symbols : Symbols
  issues : List Issue
deriving DecidableEq

/-- Collects the definitions of a program and resolves them. -/
def Program.resolve (p : Program) : Except Fault Resolution := do
  let collected ← Scope.builtins.collect p.definitions
  let resolved ← collected.scope.resolvePending
  let symbols ← resolved.scope.finish
  return ⟨collected.complete && resolved.complete, symbols, collected.issues ++ resolved.issues⟩

end ConstLang
