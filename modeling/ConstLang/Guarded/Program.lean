import ConstLang.Leveled.Program

/-!
# Programs, read with every contract checked

The contracts that the rules of the parser ask for, checked: spans of two sources are not merged,
and what a message quotes of the text is asked of the source. A reader that keeps all contracts
reads and reports what `Report.parse` does.
-/

namespace ConstLang.Guarded

/-- The smallest span around two spans, found by comparing their ends. -/
def merge (s t : Span) : Except Fault Span := do
  let first ← t.first.compare s.first
  let last ← t.last.compare s.last
  return ⟨if first = .lt then t.first else s.first, if last = .gt then t.last else s.last⟩

/-- How a message names a token. -/
def describe (t : Token) : Except Fault String :=
  match t.lexeme with
  | .number _ => do
    let text ← t.span.text
    return s!"number `{text}`"
  | .unknown _ _ => do
    let text ← t.span.text
    return s!"`{text}`"
  | l => .ok l.describe

def syntaxDiagnostic (e : SyntaxError) : Except Fault Diagnostic :=
  match e.obstacle with
  | .unmet wanted => do
    let found ← describe e.found
    return .coded .parsing wanted.code e.found.span s!"{wanted.message}, found {found}"
  | .nesting => .ok e.diagnostic

def contracts : Leveled.Contracts := ⟨merge, syntaxDiagnostic⟩

/-- Reads the program that tokens spell and adds what there is to say to a report. -/
def parse (r : Report) (ts : List Token) : Except Fault (Except Stage Program × Report) :=
  Leveled.parse contracts r ts

end ConstLang.Guarded
