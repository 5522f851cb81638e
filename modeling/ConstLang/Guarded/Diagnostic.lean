import ConstLang.Diagnostic

/-!
# Diagnostics, written with every contract checked

The excerpt of a diagnostic once more, from offsets alone: a line lies between its bounds, the part
of a line is a span between two positions that are made for it, and every text is a slice of the
contents. A diagnostic that breaks no contract is written as `Diagnostic.render` has it.
-/

namespace ConstLang.Guarded

/-- The line around an index, without its terminator. -/
def lineText (s : Source) (index : Nat) : Except Fault String := do
  let (start, stop) ← s.lineBounds index
  s.slice start stop

/-- The part of a span from its first position to the end of that line. -/
def firstLineTail (s : Span) : Except Fault Span := do
  let (_, stop) ← s.source.lineBounds s.first.offset
  let tail ← s.source.slice s.first.offset stop
  match tail.toList.getLast? with
  | none => return .single s.first
  | some last =>
    let offset := s.first.offset + (Utf8.size tail.toList - last.utf8Size)
    let skipped ← s.source.slice s.first.offset offset
    let stop ← Position.make s.source offset s.first.line (s.first.column + skipped.length)
    Span.between s.first stop

/-- The part of a span from the start of its last line to its last position. -/
def lastLineHead (s : Span) : Except Fault Span := do
  let (start, _) ← s.source.lineBounds s.last.offset
  let first ← Position.make s.source start s.last.line 1
  Span.between first s.last

/-- The lines of a source that a span lies on, with the span underlined. -/
def excerpt (s : Span) : Except Fault (List String) := do
  if s.isSingleLine then
    let text ← lineText s.source s.first.offset
    if s.first.column = 0 ∨ s.last.column < s.first.column then throw .columnOrder
    return [Diagnostic.numbered s.first.line text,
      Diagnostic.underline (s.first.column - 1) (s.last.column - s.first.column + 1)]
  else
    let tail ← (← firstLineTail s).text
    let head ← (← lastLineHead s).text
    return [Diagnostic.numbered s.first.line (tail ++ "..."), Diagnostic.underline 0 tail.length,
      Diagnostic.numbered s.last.line ("..." ++ head), Diagnostic.underline 3 head.length]

/-- The text of a diagnostic. -/
def render (d : Diagnostic) : Except Fault String :=
  let message := s!"{d.severity.name}: {d.message}"
  match d.span with
  | none => return s!"{d.stage.name}: {message}"
  | some s => do
    let place := s!"{s.first.label}:{s.last.line}:{s.last.column}"
    let lines ← excerpt s
    return String.intercalate "\n" (s!"{d.stage.name}: {place}: {message}" :: lines)

end ConstLang.Guarded
