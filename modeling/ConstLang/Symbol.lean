import ConstLang.Program.Basic

/-!
# Symbols

What an expression comes to, and what a name stands for: a built-in scalar type, or the variable
of a definition.
-/

namespace ConstLang

/-- A value that is known when a program is compiled. -/
inductive Value
  | number (x : Decimal)
  /-- The value of a type expression. -/
  | type (t : Ty)
deriving DecidableEq

/-- The type of an expression, and its value where that is known. -/
structure Valuation where
  type : Ty
  value : Option Value
deriving DecidableEq

namespace Valuation

def number? (v : Valuation) : Option Decimal :=
  match v.value with
  | some (.number x) => some x
  | _ => none

def type? (v : Valuation) : Option Ty :=
  match v.value with
  | some (.type t) => some t
  | _ => none

end Valuation

/-- An expression with the valuation of every part. A literal or a name is a leaf, a group or a
signed operand has one part, and a binary operation two. -/
inductive Annotated
  | leaf (span : Span) (valuation : Valuation)
  | one (span : Span) (valuation : Valuation) (operand : Annotated)
  | two (span : Span) (valuation : Valuation) (left right : Annotated)
deriving DecidableEq

namespace Annotated

def span : Annotated → Span
  | leaf span _ | one span _ _ | two span _ _ _ => span

def valuation : Annotated → Valuation
  | leaf _ valuation | one _ valuation _ | two _ valuation _ _ => valuation

def number? (a : Annotated) : Option Decimal := a.valuation.number?

/-- The parts of a tree, in the order of the source. -/
def operands : Annotated → List Annotated
  | leaf _ _ => []
  | one _ _ operand => [operand]
  | two _ _ left right => [left, right]

/-- Every node of a tree, each one before its parts. -/
def nodes : Annotated → List Annotated
  | leaf span valuation => [leaf span valuation]
  | one span valuation operand => one span valuation operand :: operand.nodes
  | two span valuation left right =>
    two span valuation left right :: (left.nodes ++ right.nodes)

end Annotated

/-- A definition that was resolved. -/
structure Variable where
  name : Name
  type : Scalar
  /-- The type expression. -/
  declared : Annotated
  /-- The value expression as it is written. -/
  expr : Expr
  /-- The value expression, with its value before it is stored. -/
  value : Annotated
  /-- The stored value. -/
  valuation : Valuation
deriving DecidableEq

inductive Symbol
  | builtin (s : Scalar)
  | declared (v : Variable)
deriving DecidableEq

namespace Symbol

def name : Symbol → String
  | builtin s => s.name
  | declared v => v.name.text

/-- Where a symbol is declared; built-in types are not. -/
def site? : Symbol → Option Span
  | builtin _ => none
  | declared v => some v.name.span

def type : Symbol → Ty
  | builtin _ => .metatype
  | declared v => .scalar v.type

/-- What an access to a symbol comes to. -/
def valuation : Symbol → Valuation
  | builtin s => ⟨.metatype, some (.type (.scalar s))⟩
  | declared v => v.valuation

end Symbol

/-- The built-in types, and variables in the order in which they were inserted. -/
structure Symbols where
  vars : List Variable
deriving DecidableEq

namespace Symbols

/-- The symbol of a name; built-in types come first. -/
def get? (s : Symbols) (name : String) : Option Symbol :=
  match Scalar.ofName? name with
  | some builtin => some (.builtin builtin)
  | none => (s.vars.find? fun v => v.name.text = name).map .declared

def declared? (s : Symbols) (name : String) : Option Variable :=
  match s.get? name with
  | some (.declared v) => some v
  | _ => none

/-- The number of symbols, built-in types included. -/
def size (s : Symbols) : Nat := Scalar.all.length + s.vars.length

def isEmpty (s : Symbols) : Bool := s.size == 0

end Symbols

end ConstLang
