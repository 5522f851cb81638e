import ConstLang.Symbol

/-!
# Scopes

The names of a program while it is resolved. A definition is first deferred, which makes its name
known; later it is settled, and inserted as a variable if it was resolved. A name is pending or a
symbol, never both.
-/

namespace ConstLang

structure Scope where
  symbols : Symbols
  /-- The definitions that are deferred and not yet settled. -/
  pending : List Definition
  /-- The names of all definitions that were ever deferred, in that order. -/
  queue : List String
deriving DecidableEq

namespace Scope

/-- The scope that has the built-in types only. -/
def builtins : Scope := ⟨⟨[]⟩, [], []⟩

def isBuiltin (name : String) : Bool := (Scalar.ofName? name).isSome

def resolved? (s : Scope) (name : String) : Option Symbol := s.symbols.get? name

def pending? (s : Scope) (name : String) : Option Definition :=
  s.pending.find? fun d => d.name.text = name

/-- Queues a definition whose name has no meaning yet. -/
def defer (s : Scope) (d : Definition) : Except Fault Scope :=
  let name := d.name.text
  if (s.resolved? name).isSome || (s.pending? name).isSome then .error (.collectedTwice name)
  else .ok { s with pending := s.pending ++ [d], queue := s.queue ++ [name] }

/-- The pending definitions by their place in the queue. A name that was deferred again after it
had been settled has two places. -/
def pendingInOrder (s : Scope) : List Definition := s.queue.filterMap s.pending?

/-- Takes a definition out of the pending ones. -/
def settle (s : Scope) (name : String) : Except Fault Scope :=
  if (s.pending? name).isSome then
    .ok { s with pending := s.pending.filter fun d => d.name.text ≠ name }
  else .error (.settledUnknown name)

/-- Gives a name its variable. -/
def insert (s : Scope) (v : Variable) : Except Fault Scope :=
  let name := v.name.text
  if (s.pending? name).isSome then .error (.insertedPending name)
  else if (s.resolved? name).isSome then .error (.insertedTwice name)
  else .ok { s with symbols := ⟨s.symbols.vars ++ [v]⟩ }

/-- The symbols of a scope where nothing is pending. -/
def finish (s : Scope) : Except Fault Symbols :=
  if s.pending.isEmpty then .ok s.symbols else .error .pendingLeft

end Scope

end ConstLang
