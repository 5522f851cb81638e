import ConstLang.Program.Parser

/-!
# Programs, read on record

The parser once more, one function to each rule of the grammar. Every rule is handed the number of
open levels and hands it back, and what it does to that number is put on record, also if the reading
fails. A rule for a part of an expression is silent where none starts, and has then taken nothing:
it leaves it to its caller to say what is missing. A rule that fails has reported why, at the next
token.

What the rules ask of the spans and the texts of tokens are contracts, which they are given. With
contracts that nothing breaks, what is read and reported is that of `Program.ofTokens`.
-/

namespace ConstLang

namespace Leveled

/-- What the rules ask of tokens: the smallest span around two others, and what there is to report
of a token. -/
structure Contracts where
  merge : Span → Span → Except Fault Span
  diagnose : SyntaxError → Except Fault Diagnostic

/-- Contracts that nothing breaks. -/
def Contracts.unchecked : Contracts := ⟨fun s t => .ok (s.cover t), fun e => .ok e.diagnostic⟩

/-- What happens to the open levels. Each move has the number of levels that are open before it. -/
inductive Move
  /-- An expression of a definition is begun. -/
  | begins (levels : Nat)
  /-- One more level is opened. -/
  | opens (levels : Nat)
  /-- Some levels are closed. -/
  | closes (opened levels : Nat)
deriving DecidableEq

/-- Why a reading ends early: at an obstacle, or at a broken contract. -/
inductive Halt
  | stop (stop : Stop)
  | fault (fault : Fault)

/-- A reading: its moves, what it comes to, and the report behind it. -/
structure Trace (α : Type) where
  moves : List Move
  outcome : Except Halt α
  report : Report

/-- Reads something, from the report so far. -/
def Run (α : Type) : Type := Report → Trace α

/-- What was read, the levels that are open behind it, and the tokens behind it, which are no more
than a bound. -/
structure Read (α : Type) (bound : Nat) where
  value : α
  levels : Nat
  rest : List Token
  short : rest.length ≤ bound

namespace Run

variable {α β : Type}

def pure (a : α) : Run α := fun r => ⟨[], .ok a, r⟩

def halt (h : Halt) : Run α := fun r => ⟨[], .error h, r⟩

def bind (x : Run α) (f : α → Run β) : Run β := fun r =>
  let first := x r
  match first.outcome with
  | .ok a =>
    let next := f a first.report
    ⟨first.moves ++ next.moves, next.outcome, next.report⟩
  | .error halt => ⟨first.moves, .error halt, first.report⟩

instance : Monad Run where
  pure := pure
  bind := bind

/-- A contract that is asked for. -/
instance : MonadLift (Except Fault) Run where
  monadLift x := fun r => ⟨[], x.mapError .fault, r⟩

end Run

/-- Puts a move on record. -/
def note (move : Move) : Run Unit := fun r => ⟨[move], .ok (), r⟩

/-- Adds to the report. -/
def tell (d : Diagnostic) : Run Unit := fun r => ⟨[], .ok (), r.push d⟩

/-- Closes levels. -/
def leave (opened levels : Nat) : Run Nat := do
  note (.closes opened levels)
  if opened ≤ levels then return levels - opened else Run.halt (.fault .unopenedLevels)

theorem le_of_le_pred {a b c : Nat} (h : a ≤ b - 1) (bound : b ≤ c) : a ≤ c :=
  Nat.le_trans h (Nat.le_trans (Nat.sub_le b 1) bound)

section

variable (c : Contracts) {α : Type}

/-- Reports an obstacle at the first of these tokens, and ends the reading there. -/
def fail (obstacle : Obstacle) (ts : List Token) : Run α :=
  match ts with
  | [] => Run.halt (.stop ⟨obstacle, []⟩)
  | t :: ts => do
    tell (← c.diagnose ⟨obstacle, t⟩)
    Run.halt (.stop ⟨obstacle, t :: ts⟩)

/-- Opens a level. The tokens are those behind the one that opens it. -/
def enter (levels : Nat) (ts : List Token) : Run Nat :=
  if levels = maxNesting then fail c .nesting ts
  else do
    note (.opens levels)
    return levels + 1

/-- A node, if the spans of its ends can be merged. -/
def node (a : α) (first last : Span) : Run α := do
  let _ ← c.merge first last
  return a

/-- Reads a mark. -/
def expect (m : Mark) (wanted : Wanted) (levels : Nat) (ts : List Token) :
    Run (Read Span (ts.length - 1)) :=
  match ts with
  | [] => fail c (.unmet wanted) []
  | t :: ts =>
    if t.lexeme = .mark m then return ⟨t.span, levels, ts, Nat.le_refl _⟩
    else fail c (.unmet wanted) (t :: ts)

/-- Reads a word. -/
def name (levels : Nat) (ts : List Token) : Run (Read Name (ts.length - 1)) :=
  match ts with
  | ⟨.word text, span⟩ :: ts => return ⟨⟨text, span⟩, levels, ts, Nat.le_refl _⟩
  | ts => fail c (.unmet .name) ts

/-- Reports that an expression is missing in front of these tokens, if there is none. -/
def required (wanted : Wanted) (e : Option Expr) (ts : List Token) : Run Expr :=
  match e with
  | some e => return e
  | none => fail c (.unmet wanted) ts

-- A rule goes on to another behind a token that it has taken, or else to one that is lower in the
-- grammar: the second number of the measures.
mutual

/-- Reads an expression, if there is one. -/
def expression (levels : Nat) (ts : List Token) : Run (Read (Option Expr) ts.length) :=
  term levels ts
termination_by (ts.length, 4)

/-- Reads a factor and the additive operators after it, if there is one. -/
def term (levels : Nat) (ts : List Token) : Run (Read (Option Expr) ts.length) := do
  let ⟨left, levels, us, short⟩ ← factor levels ts
  match left with
  | none => return ⟨none, levels, us, short⟩
  | some left =>
    let ⟨e, levels, us, shorter⟩ ← terms left 0 levels us
    return ⟨some e, levels, us, Nat.le_trans shorter short⟩
termination_by (ts.length, 3)
decreasing_by all_goals grind

/-- Reads the additive operators after `left`, each with its right operand. The chain has opened
some levels so far, and closes them at its end. -/
def terms (left : Expr) (opened levels : Nat) (ts : List Token) : Run (Read Expr ts.length) :=
  match ts with
  | ⟨.mark m, span⟩ :: ts =>
    match Operator.additive? m with
    | some op => do
      let levels ← enter c levels ts
      let ⟨right, levels, us, short⟩ ← factor levels ts
      let right ← required c (.operand m) right us
      let left ← node c (.binary op span left right) left.span right.span
      let ⟨e, levels, us, shorter⟩ ← terms left (opened + 1) levels us
      return ⟨e, levels, us, Nat.le_trans shorter (Nat.le_succ_of_le short)⟩
    | none => do return ⟨left, ← leave opened levels, ⟨.mark m, span⟩ :: ts, Nat.le_refl _⟩
  | ts => do return ⟨left, ← leave opened levels, ts, Nat.le_refl _⟩
termination_by (ts.length, 0)
decreasing_by all_goals grind

/-- Reads an operand and the multiplicative operators after it, if there is one. -/
def factor (levels : Nat) (ts : List Token) : Run (Read (Option Expr) ts.length) := do
  let ⟨left, levels, us, short⟩ ← unary levels ts
  match left with
  | none => return ⟨none, levels, us, short⟩
  | some left =>
    let ⟨e, levels, us, shorter⟩ ← factors left 0 levels us
    return ⟨some e, levels, us, Nat.le_trans shorter short⟩
termination_by (ts.length, 2)
decreasing_by all_goals grind

/-- Reads the multiplicative operators after `left`, each with its right operand. -/
def factors (left : Expr) (opened levels : Nat) (ts : List Token) : Run (Read Expr ts.length) :=
  match ts with
  | ⟨.mark m, span⟩ :: ts =>
    match Operator.multiplicative? m with
    | some op => do
      let levels ← enter c levels ts
      let ⟨right, levels, us, short⟩ ← unary levels ts
      let right ← required c (.operand m) right us
      let left ← node c (.binary op span left right) left.span right.span
      let ⟨e, levels, us, shorter⟩ ← factors left (opened + 1) levels us
      return ⟨e, levels, us, Nat.le_trans shorter (Nat.le_succ_of_le short)⟩
    | none => do return ⟨left, ← leave opened levels, ⟨.mark m, span⟩ :: ts, Nat.le_refl _⟩
  | ts => do return ⟨left, ← leave opened levels, ts, Nat.le_refl _⟩
termination_by (ts.length, 0)
decreasing_by all_goals grind

/-- Reads a sign with its operand, or a primary, if there is one. -/
def unary (levels : Nat) (ts : List Token) : Run (Read (Option Expr) ts.length) :=
  match ts with
  | ⟨.mark m, span⟩ :: ts =>
    match Sign.ofMark? m with
    | some sign => do
      let levels ← enter c levels ts
      let ⟨e, levels, us, short⟩ ← unary levels ts
      let e ← required c (.operand m) e us
      let levels ← leave 1 levels
      let e ← node c (.unary sign span e) span e.span
      return ⟨some e, levels, us, Nat.le_succ_of_le short⟩
    | none => primary levels (⟨.mark m, span⟩ :: ts)
  | ts => primary levels ts
termination_by (ts.length, 1)
decreasing_by all_goals grind

/-- Reads a literal, a name or a group, if there is one. -/
def primary (levels : Nat) (ts : List Token) : Run (Read (Option Expr) ts.length) :=
  match ts with
  | ⟨.word text, span⟩ :: ts =>
    return ⟨some (.access ⟨text, span⟩), levels, ts, Nat.le_succ _⟩
  | ⟨.number numeral, span⟩ :: ts =>
    return ⟨some (.literal numeral span), levels, ts, Nat.le_succ _⟩
  | ⟨.mark .leftParen, span⟩ :: ts => do
    let levels ← enter c levels ts
    let ⟨inner, levels, us, short⟩ ← expression levels ts
    let inner ← required c .groupedExpr inner us
    let ⟨closing, levels, us, shorter⟩ ← expect c .rightParen .closing levels us
    let levels ← leave 1 levels
    let e ← node c (.group span inner closing) span closing
    return ⟨some e, levels, us, Nat.le_succ_of_le (le_of_le_pred shorter short)⟩
  | ts => return ⟨none, levels, ts, Nat.le_refl _⟩
termination_by (ts.length, 0)
decreasing_by all_goals grind

end

/-- The rules for an expression and its parts. -/
inductive Rule
  | expression | term | factor | unary | primary
deriving DecidableEq

/-- What a rule reads. -/
def Rule.read : Rule → (levels : Nat) → (ts : List Token) → Run (Read (Option Expr) ts.length)
  | expression => Leveled.expression c
  | term => Leveled.term c
  | factor => Leveled.factor c
  | unary => Leveled.unary c
  | primary => Leveled.primary c

/-- Reads the expression that a definition has to have here. -/
def member (wanted : Wanted) (levels : Nat) (ts : List Token) : Run (Read Expr ts.length) := do
  note (.begins levels)
  let ⟨e, levels, us, short⟩ ← expression c levels ts
  let e ← required c wanted e us
  return ⟨e, levels, us, short⟩

/-- Reads `name : type = value ;`. -/
def definition (levels : Nat) (ts : List Token) : Run (Read Definition (ts.length - 1)) := do
  let ⟨name, levels, us, named⟩ ← name c levels ts
  let ⟨colon, levels, us, separated⟩ ← expect c .colon .colon levels us
  let ⟨type, levels, us, typed⟩ ← member c .typeExpr levels us
  let ⟨equals, levels, us, equated⟩ ← expect c .equals .equals levels us
  let ⟨value, levels, us, valued⟩ ← member c .valueExpr levels us
  let ⟨semicolon, levels, us, ended⟩ ← expect c .semicolon .semicolon levels us
  let d ← node c ⟨name, colon, type, equals, value, semicolon⟩ name.span semicolon
  have short := Nat.le_trans typed (le_of_le_pred separated named)
  return ⟨d, levels, us,
    le_of_le_pred ended (Nat.le_trans valued (le_of_le_pred equated short))⟩

/-- Reads definitions until an end mark is next. -/
def definitions (levels : Nat) (ts : List Token) : Run (Read (List Definition) ts.length) :=
  match ts with
  | [] => return ⟨[], levels, [], Nat.le_refl _⟩
  | t :: ts =>
    if t.isEnd then return ⟨[], levels, t :: ts, Nat.le_refl _⟩
    else do
      let ⟨d, levels, us, short⟩ ← definition c levels (t :: ts)
      let ⟨ds, levels, us, shorter⟩ ← definitions levels us
      return ⟨d :: ds, levels, us, Nat.le_trans shorter (Nat.le_succ_of_le short)⟩
termination_by ts.length
decreasing_by
  simp only [List.length_cons] at *
  omega

/-- The span of all definitions, or of the end mark if there are none. -/
def programSpan (p : Program) : Except Fault Span :=
  match p.definitions with
  | [] => .ok p.endMark
  | d :: ds => ds.foldlM (fun s d => c.merge s d.span) d.span

/-- Reads a program up to the first end mark. The last token must be one. -/
def whole (ts : List Token) : Run Program :=
  if ts.getLast?.any Token.isEnd then do
    let ⟨ds, _, rest, _⟩ ← definitions c 0 ts
    match rest with
    | [] => Run.halt (.fault .openStream)
    | next :: _ =>
      let p : Program := ⟨ds, next.span⟩
      let _ ← programSpan c p
      return p
  else Run.halt (.fault .openStream)

/-- Reads the program that tokens spell and adds what there is to say to a report. -/
def parse (r : Report) (ts : List Token) : Except Fault (Except Stage Program × Report) :=
  let trace := whole c ts r
  match trace.outcome with
  | .ok p => .ok (.ok p, trace.report)
  | .error (.stop _) => .ok (.error .parsing, trace.report)
  | .error (.fault fault) => .error fault

end

/-- The program that tokens spell, or why they are none. -/
def program (ts : List Token) : Except Fault (Except SyntaxError Program) :=
  match (whole .unchecked ts .empty).outcome with
  | .ok p => .ok (.ok p)
  | .error (.stop ⟨obstacle, found :: _⟩) => .ok (.error ⟨obstacle, found⟩)
  | .error (.stop ⟨_, []⟩) => .error .openStream
  | .error (.fault fault) => .error fault

end Leveled

/-- Reads the program that tokens spell and adds what there is to say to a report. No contract is
checked but that the last token is an end mark. -/
def Report.parse (r : Report) (ts : List Token) : Except Fault (Except Stage Program × Report) :=
  Leveled.parse .unchecked r ts

end ConstLang
