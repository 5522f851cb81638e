/-!
# Ranges of code points

A property of characters is carried as a list of closed ranges of code points. Such a list is well
formed if its ranges ascend, do not touch and end within the code space; the tables check that.
-/

namespace ConstLang

namespace Unicode

/-- The largest code point. -/
def lastCodePoint : Nat := 0x10FFFF

/-- Whether one of the ranges holds a code point. -/
def inRanges (ranges : List (Nat × Nat)) (n : Nat) : Bool :=
  ranges.any fun r => decide (r.1 ≤ n ∧ n ≤ r.2)

/-- Whether the ranges are not empty, ascend, and leave a gap between one and the next. -/
def areSeparate : List (Nat × Nat) → Bool
  | [] => true
  | [r] => decide (r.1 ≤ r.2 ∧ r.2 ≤ lastCodePoint)
  | r :: s :: ranges => decide (r.1 ≤ r.2 ∧ r.2 + 1 < s.1) && areSeparate (s :: ranges)

/-- The number of code points that ranges hold, if they are separate. -/
def count : List (Nat × Nat) → Nat
  | [] => 0
  | r :: ranges => (r.2 + 1 - r.1) + count ranges

end Unicode

end ConstLang
