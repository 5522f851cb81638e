import ConstLang.Position
import ConstLang.Quoted

/-!
# Spans

A span is a stretch of a source, given by the positions of its first and of its last character.
The end of the text may be the last position; it adds nothing to the text of the span.
-/

namespace ConstLang

structure Span where
  first : Position
  last : Position
deriving DecidableEq

namespace Span

/-- The span of one position. -/
def single (p : Position) : Span := ⟨p, p⟩

/-- The span from one position to another, both included. -/
def between (first last : Position) : Except Fault Span :=
  if first.source ≠ last.source then .error .unrelatedEnds
  else if last.offset < first.offset then .error .reversedEnds
  else .ok ⟨first, last⟩

def source (s : Span) : Source := s.first.source

/-- The smallest span around two spans of one source; of equal places those of `s` are kept. -/
def cover (s t : Span) : Span :=
  ⟨if t.first.offset < s.first.offset then t.first else s.first,
    if s.last.offset < t.last.offset then t.last else s.last⟩

/-- The smallest span around two spans, which must be of one source. -/
def merge (s t : Span) : Except Fault Span :=
  if s.source = t.source then .ok (s.cover t) else .error .unrelatedPositions

/-- Whether two spans are one place; lines and columns do not matter. -/
def sameAs (s t : Span) : Bool := s.first.sameAs t.first && s.last.sameAs t.last

def isSingleLine (s : Span) : Bool := s.first.line == s.last.line

/-- The offset behind the last character. -/
def stopOffset (s : Span) : Except Fault Nat :=
  if s.last.isEnd then .ok s.source.endOffset
  else s.last.char.map fun c => s.last.offset + c.utf8Size

def text (s : Span) : Except Fault String := do
  s.source.slice s.first.offset (← s.stopOffset)

/-- The part of a span from its first position to the end of that line. -/
def firstLineTail (s : Span) : Except Fault Span := do
  let (_, tail) ← s.source.lineAround s.first.offset
  return if tail.isEmpty then single s.first else ⟨s.first, s.first.after tail.dropLast⟩

/-- The part of a span from the start of its last line to its last position. -/
def lastLineHead (s : Span) : Except Fault Span := do
  let (head, _) ← s.source.lineAround s.last.offset
  return ⟨⟨s.source, s.last.offset - Utf8.size head, s.last.line, 1⟩, s.last⟩

/-- Where a span is and what it holds, for people. -/
def label (s : Span) : Except Fault String := do
  let quoted := Quoted.text (← s.text)
  return s!"{s.first.label}..{s.last.line}:{s.last.column} {quoted}"

end Span

end ConstLang
