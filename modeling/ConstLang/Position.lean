import ConstLang.Source

/-!
# Positions

A position is a place in a source with the line and the column that are reported for it. Lines and
columns count from one, and columns count characters.
-/

namespace ConstLang

structure Position where
  source : Source
  offset : Nat
  line : Nat
  column : Nat
deriving DecidableEq

namespace Position

/-- A position with a line and a column of the caller's choice. -/
def make (source : Source) (offset line column : Nat) : Except Fault Position :=
  if offset ≤ source.endOffset then .ok ⟨source, offset, line, column⟩
  else .error (.positionBeyondEnd offset source.path)

def isEnd (p : Position) : Bool := p.offset == p.source.endOffset

/-- The character at a position, or the closing character at the end. -/
def char (p : Position) : Except Fault Char := p.source.charAt p.offset

/-- The position after the character `c` at `p`. -/
def step (p : Position) (c : Char) : Position :=
  if c = '\n' then ⟨p.source, p.offset + c.utf8Size, p.line + 1, 1⟩
  else ⟨p.source, p.offset + c.utf8Size, p.line, p.column + 1⟩

/-- The position after the characters that follow `p`. -/
def after (p : Position) (cs : List Char) : Position := cs.foldl step p

@[simp] theorem after_nil (p : Position) : p.after [] = p := rfl

@[simp] theorem after_cons (p : Position) (c : Char) (cs : List Char) :
    p.after (c :: cs) = (p.step c).after cs := rfl

/-- The position of the next character. -/
def advance (p : Position) : Except Fault Position :=
  if p.isEnd then .error (.advanceBeyondEnd p.source.path)
  else p.char.map p.step

/-- Whether two positions are one place; the line and the column do not matter. -/
def sameAs (p q : Position) : Bool := p.source == q.source && p.offset == q.offset

/-- The order in one source. -/
protected def compare (p q : Position) : Except Fault Ordering :=
  if p.source = q.source then .ok (compare p.offset q.offset) else .error .unrelatedPositions

/-- Where a position is, for people. -/
def label (p : Position) : String := s!"{p.source.path}:{p.line}:{p.column}"

end Position

/-- The position of the first character. -/
def Source.start (s : Source) : Position := ⟨s, 0, 1, 1⟩

end ConstLang
