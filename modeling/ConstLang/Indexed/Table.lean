import ConstLang.Scope
import Mathlib.Data.List.Basic

/-!
# Scopes with indexes

A scope once more, with every name found by its hash: one index has the names that have a meaning,
another those that are pending, and two lists keep the order in which names were deferred and
variables were inserted. A name that is settled leaves the index, but not the list. Under the same
calls a table comes to what `Scope` comes to.
-/

namespace ConstLang

/-- A change to the names of a program. -/
inductive Call
  | defer (d : Definition)
  | settle (name : String)
  | insert (v : Variable)
deriving DecidableEq

namespace Scope

def call (s : Scope) : Call → Except Fault Scope
  | .defer d => s.defer d
  | .settle name => s.settle name
  | .insert v => s.insert v

/-- Makes calls one after the other, up to the first that breaks a contract. -/
def run (s : Scope) (calls : List Call) : Except Fault Scope := calls.foldlM call s

end Scope

namespace Indexed

structure Table where
  resolved : Std.HashMap String Symbol
  unresolved : Std.HashMap String Definition
  /-- The names of all definitions that were ever deferred, in that order. -/
  order : List String
  /-- The names of the variables, in the order in which they were inserted. -/
  vars : List String

namespace Table

/-- The table that has the built-in types only. -/
def builtins : Table :=
  ⟨.ofList (Scalar.all.map fun s => (s.name, .builtin s)), ∅, [], []⟩

/-- Queues a definition whose name has no meaning yet. -/
def defer (t : Table) (d : Definition) : Except Fault Table :=
  let name := d.name.text
  if t.resolved.contains name || t.unresolved.contains name then .error (.collectedTwice name)
  else .ok { t with unresolved := t.unresolved.insert name d, order := t.order ++ [name] }

/-- The pending definitions by their place in the order. -/
def pendingInOrder (t : Table) : List Definition :=
  t.order.filterMap fun name => t.unresolved[name]?

/-- Takes a definition out of the pending ones. -/
def settle (t : Table) (name : String) : Except Fault Table :=
  if t.unresolved.contains name then .ok { t with unresolved := t.unresolved.erase name }
  else .error (.settledUnknown name)

/-- Gives a name its variable. -/
def insert (t : Table) (v : Variable) : Except Fault Table :=
  let name := v.name.text
  if t.unresolved.contains name then .error (.insertedPending name)
  else if t.resolved.contains name then .error (.insertedTwice name)
  else .ok { t with
    resolved := t.resolved.insert name (.declared v), vars := t.vars ++ [name] }

def call (t : Table) : Call → Except Fault Table
  | .defer d => t.defer d
  | .settle name => t.settle name
  | .insert v => t.insert v

/-- Makes calls one after the other, up to the first that breaks a contract. -/
def run (t : Table) (calls : List Call) : Except Fault Table := calls.foldlM call t

end Table

end Indexed

end ConstLang
