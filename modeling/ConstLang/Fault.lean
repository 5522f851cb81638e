/-!
# Faults

A fault is a call that breaks the contract of an operation: a defect of the caller, never of the
text that is compiled. Operations with a contract return one instead of a result.
-/

namespace ConstLang

inductive Fault
  /-- No character of the source starts at this index. -/
  | notACharacter (index : Nat) (path : String)
  /-- The line of an index past the end was asked for. -/
  | lineBeyondEnd (index : Nat) (path : String)
  /-- The ends of a slice are in the wrong order or past the end. -/
  | sliceBounds (start stop : Nat)
  /-- A position was made past the end. -/
  | positionBeyondEnd (index : Nat) (path : String)
  /-- The end has no next position. -/
  | advanceBeyondEnd (path : String)
  /-- An index lies inside the encoding of a character. -/
  | splitCharacter
  /-- Positions of different sources have no order. -/
  | unrelatedPositions
  /-- The ends of a span are in different sources. -/
  | unrelatedEnds
  /-- The last position of a span lies before its first. -/
  | reversedEnds
  /-- The columns of a span on one line cannot be underlined. -/
  | columnOrder
  /-- The tokens to parse do not end in the end mark. -/
  | openStream
  /-- More levels of nesting were closed than are open. -/
  | unopenedLevels
  /-- A definition was queued under a name that is taken. -/
  | collectedTwice (name : String)
  /-- A name was settled that is not pending. -/
  | settledUnknown (name : String)
  /-- A variable was inserted under a name that is still pending. -/
  | insertedPending (name : String)
  /-- A variable was inserted under a name that has a meaning. -/
  | insertedTwice (name : String)
  /-- The table was finished while definitions were pending. -/
  | pendingLeft
deriving DecidableEq

/-- The message of a fault; three of them have none. -/
def Fault.message? : Fault → Option String
  | notACharacter index path => some s!"index {index} is not a character of `{path}`"
  | lineBeyondEnd index path => some s!"index {index} past end of `{path}`"
  | sliceBounds start stop => some s!"slice {start}..{stop} out of bounds"
  | positionBeyondEnd index path => some s!"location {index} past end of `{path}`"
  | advanceBeyondEnd path => some s!"cannot advance past the end of `{path}`"
  | splitCharacter => none
  | unrelatedPositions => some "comparing locations of different sources"
  | unrelatedEnds => some "portion spans two sources"
  | reversedEnds => some "portion ends before it starts"
  | columnOrder => none
  | openStream => some "lexeme stream must end with the end-of-file mark"
  | unopenedLevels => none
  | collectedTwice name => some s!"`{name}` collected twice"
  | settledUnknown name => some s!"`{name}` settled but never deferred"
  | insertedPending name => some s!"`{name}` inserted while still pending"
  | insertedTwice name => some s!"`{name}` inserted twice"
  | pendingLeft => some "resolution finished with pending definitions"

theorem ok_bind {ε α β : Type} (a : α) (f : α → Except ε β) : (.ok a >>= f) = f a := rfl

/-- Steps in a row have a result if each of them has one. -/
theorem bind_eq_ok {ε α β : Type} {x : Except ε α} {f : α → Except ε β} {b : β} :
    (x >>= f) = .ok b ↔ ∃ a, x = .ok a ∧ f a = .ok b := by
  cases x <;> simp [bind, Except.bind]

end ConstLang
