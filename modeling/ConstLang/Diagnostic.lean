import ConstLang.Span

/-!
# Diagnostics

A diagnostic is one message of a stage, with the span it is about. It is written with the lines of
the source that the span lies on, and the span underlined: the whole line for a span on one line,
and otherwise the part of the first line and the part of the last that belong to the span.
-/

namespace ConstLang

inductive Severity
  | error
  | warning
  | info
deriving DecidableEq

def Severity.name : Severity → String
  | error => "error"
  | warning => "warning"
  | info => "info"

/-- The stages of compilation. -/
inductive Stage
  | lexing
  | parsing
  | resolving
deriving DecidableEq

def Stage.name : Stage → String
  | lexing => "lexer"
  | parsing => "parser"
  | resolving => "resolver"

/-- What kind of problem a diagnostic reports. -/
inductive Code
  | strayCharacter
  | malformedNumber
  | unexpectedLexeme
  | missingExpression
  | deepNesting
  | undefinedName
  | typeMismatch
  | redeclaration
  | builtinClash
  | notYetResolved
  | scalarRequired
  | unstorableType
  | notRepresentable
  | divisionByZero
  | unknownType
  | roundedConstant
deriving DecidableEq

namespace Code

/-- The written form of a code: a letter for the stage, or `W` for a warning, and a number. -/
def name : Code → String
  | strayCharacter => "L001"
  | malformedNumber => "L002"
  | unexpectedLexeme => "P001"
  | missingExpression => "P002"
  | deepNesting => "P003"
  | undefinedName => "S001"
  | typeMismatch => "S002"
  | redeclaration => "S003"
  | builtinClash => "S004"
  | notYetResolved => "S005"
  | scalarRequired => "S006"
  | unstorableType => "S007"
  | notRepresentable => "S008"
  | divisionByZero => "S009"
  | unknownType => "S010"
  | roundedConstant => "W001"

def all : List Code :=
  [strayCharacter, malformedNumber, unexpectedLexeme, missingExpression, deepNesting,
    undefinedName, typeMismatch, redeclaration, builtinClash, notYetResolved, scalarRequired,
    unstorableType, notRepresentable, divisionByZero, unknownType, roundedConstant]

def severity : Code → Severity
  | roundedConstant => .warning
  | _ => .error

end Code

structure Diagnostic where
  severity : Severity
  /-- Notes have no code. -/
  code : Option Code
  stage : Stage
  span : Option Span
  message : String
deriving DecidableEq

namespace Diagnostic

/-- An error or a warning, as the code has it. -/
def coded (stage : Stage) (code : Code) (span : Span) (message : String) : Diagnostic :=
  ⟨code.severity, some code, stage, some span, message⟩

/-- A remark that goes with the diagnostic before it. -/
def note (stage : Stage) (span : Span) (message : String) : Diagnostic :=
  ⟨.info, none, stage, some span, message⟩

/-- The space in front of an underline. -/
def gutter : String := "      | "

/-- A line of an excerpt behind its number, which is aligned to the right in five columns. -/
def numbered (line : Nat) (text : String) : String :=
  let number := toString line
  "".pushn ' ' (5 - number.length) ++ number ++ " | " ++ text

def underline (indent width : Nat) : String :=
  gutter ++ "".pushn ' ' indent ++ "".pushn '~' width

/-- The lines of a source that a span lies on, with the span underlined. -/
def excerpt (s : Span) : Except Fault (List String) := do
  if s.isSingleLine then
    let text ← s.source.lineText s.first.offset
    if s.first.column = 0 ∨ s.last.column < s.first.column then throw .columnOrder
    return [numbered s.first.line text,
      underline (s.first.column - 1) (s.last.column - s.first.column + 1)]
  else
    let tail ← (← s.firstLineTail).text
    let head ← (← s.lastLineHead).text
    return [numbered s.first.line (tail ++ "..."), underline 0 tail.length,
      numbered s.last.line ("..." ++ head), underline 3 head.length]

/-- The lines of a diagnostic. -/
def lines (d : Diagnostic) : Except Fault (List String) :=
  let message := s!"{d.severity.name}: {d.message}"
  match d.span with
  | none => return [s!"{d.stage.name}: {message}"]
  | some s => do
    let place := s!"{s.first.label}:{s.last.line}:{s.last.column}"
    return s!"{d.stage.name}: {place}: {message}" :: (← excerpt s)

/-- The text of a diagnostic. -/
def render (d : Diagnostic) : Except Fault String :=
  d.lines.map (String.intercalate "\n")

end Diagnostic

/-- The diagnostics of one or more compilations, in order and counted. -/
structure Report where
  records : List Diagnostic
  errors : Nat
  warnings : Nat
deriving DecidableEq

namespace Report

def empty : Report := ⟨[], 0, 0⟩

def push (r : Report) (d : Diagnostic) : Report :=
  let records := r.records ++ [d]
  match d.severity with
  | .error => ⟨records, r.errors + 1, r.warnings⟩
  | .warning => ⟨records, r.errors, r.warnings + 1⟩
  | .info => ⟨records, r.errors, r.warnings⟩

def pushAll (r : Report) (ds : List Diagnostic) : Report := ds.foldl push r

def hasErrors (r : Report) : Bool := decide (0 < r.errors)

/-- A count with its noun. -/
def counted (n : Nat) (noun : String) : String := if n = 1 then s!"{n} {noun}" else s!"{n} {noun}s"

/-- The counts that are not zero, a line each. -/
def summary (r : Report) : String :=
  String.intercalate "\n" <|
    (if 0 < r.errors then [counted r.errors "error"] else []) ++
      (if 0 < r.warnings then [counted r.warnings "warning"] else [])

end Report

end ConstLang
