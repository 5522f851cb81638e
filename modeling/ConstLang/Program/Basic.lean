import ConstLang.Token

/-!
# Programs

A program is a list of definitions `name : type = value ;`, and types and values are expressions.
The trees keep the span of everything that is written, parentheses and punctuation included, and
the span of a tree is computed from those.
-/

namespace ConstLang

/-- The binary operators. -/
inductive Operator
  | add | subtract
  | multiply | divide | remainder
deriving DecidableEq

namespace Operator

/-- The operators that bind weakest. -/
def additive? : Mark → Option Operator
  | .plus => some add
  | .minus => some subtract
  | _ => none

/-- The operators that bind tighter than the additive ones. -/
def multiplicative? : Mark → Option Operator
  | .star => some multiply
  | .slash => some divide
  | .percent => some remainder
  | _ => none

def ofMark? (m : Mark) : Option Operator := (additive? m).or (multiplicative? m)

def mark : Operator → Mark
  | add => .plus
  | subtract => .minus
  | multiply => .star
  | divide => .slash
  | remainder => .percent

theorem mark_of_additive? {m : Mark} {op : Operator} (h : additive? m = some op) : op.mark = m := by
  cases m <;> cases h <;> rfl

theorem mark_of_multiplicative? {m : Mark} {op : Operator} (h : multiplicative? m = some op) :
    op.mark = m := by
  cases m <;> cases h <;> rfl

/-- Whether an operator binds weakest. -/
def isAdditive : Operator → Bool
  | add | subtract => true
  | multiply | divide | remainder => false

theorem isAdditive_of_additive? {m : Mark} {op : Operator} (h : additive? m = some op) :
    op.isAdditive = true := by
  cases m <;> cases h <;> rfl

theorem isAdditive_of_multiplicative? {m : Mark} {op : Operator}
    (h : multiplicative? m = some op) : op.isAdditive = false := by
  cases m <;> cases h <;> rfl

theorem additive?_mark {op : Operator} (h : op.isAdditive = true) :
    additive? op.mark = some op := by
  cases op <;> first | rfl | contradiction

theorem multiplicative?_mark {op : Operator} (h : op.isAdditive = false) :
    multiplicative? op.mark = some op := by
  cases op <;> first | rfl | contradiction

end Operator

def Sign.mark : Sign → Mark
  | plus => .plus
  | minus => .minus

theorem Sign.mark_of_ofMark? {m : Mark} {s : Sign} (h : Sign.ofMark? m = some s) : s.mark = m := by
  cases m <;> cases h <;> rfl

/-- A name where it is written: a word, reserved or not. -/
structure Name where
  text : String
  span : Span
deriving DecidableEq

/-- The token of a mark. -/
def Mark.token (m : Mark) (span : Span) : Token := ⟨.mark m, span⟩

def Name.token (n : Name) : Token := ⟨.word n.text, n.span⟩

/-- Expressions. The spans in a node are those of its own lexemes: the parentheses of a group, and
the sign or the operator. -/
inductive Expr
  | literal (numeral : Numeral) (span : Span)
  | access (name : Name)
  | group (opening : Span) (inner : Expr) (closing : Span)
  | unary (sign : Sign) (signSpan : Span) (operand : Expr)
  | binary (op : Operator) (opSpan : Span) (left right : Expr)
deriving DecidableEq

namespace Expr

/-- The span from the first to the last lexeme of an expression. -/
def span : Expr → Span
  | literal _ span => span
  | access name => name.span
  | group opening _ closing => opening.cover closing
  | unary _ signSpan operand => signSpan.cover operand.span
  | binary _ _ left right => left.span.cover right.span

end Expr

/-- A definition `name : type = value ;`. -/
structure Definition where
  name : Name
  colon : Span
  type : Expr
  equals : Span
  value : Expr
  semicolon : Span
deriving DecidableEq

def Definition.span (d : Definition) : Span := d.name.span.cover d.semicolon

/-- The definitions of a source, and the span of the end mark behind them. -/
structure Program where
  definitions : List Definition
  endMark : Span
deriving DecidableEq

/-- The span of all definitions, or of the end mark if there are none. -/
def Program.span (p : Program) : Span :=
  match p.definitions with
  | [] => p.endMark
  | d :: ds => ds.foldl (fun s d => s.cover d.span) d.span

end ConstLang
