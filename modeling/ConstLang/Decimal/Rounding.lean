import ConstLang.Decimal.Basic

/-!
# Rounding and division

Results that are not exact are rounded to the nearest number on a decimal grid, a tie going away
from zero. A quotient is first cut one digit past the grid; that digit is enough to round by.
-/

namespace ConstLang

/-- The grid to round to: a number of decimal places, which may be negative, or a number of
significant digits. -/
inductive Rounding
  | places (count : Int)
  | significant (count : Nat)
deriving DecidableEq

namespace Decimal

open Digits

/-- Drops the last `count` digits of an integer, a half and more going away from zero. -/
def dropDigits (n : Int) (count : Nat) : Int :=
  let unit := tenTo count
  let kept := n.tdiv unit
  if unit ≤ 2 * (n.tmod unit).natAbs then kept + n.sign else kept

/-- The nearest number on the grid; a number on the grid is returned as it is. -/
def round (x : Decimal) : Rounding → Decimal
  | .places count =>
    if -x.exponent ≤ count then x
    else normal (dropDigits x.mantissa (-x.exponent - count).toNat) (-count)
  | .significant count =>
    if x.digits ≤ count then x
    else
      let dropped := x.digits - count
      normal (dropDigits x.mantissa dropped) (x.exponent + dropped)

/-- The number of decimal places to which a quotient is cut before it is rounded: one more than
the grid has. A number of significant digits is counted in a signed 64-bit word. -/
def guardPlaces (x y : Decimal) : Rounding → Int
  | .places count => count + 1
  | .significant count => Int.bmod count (Nat.pow 2 64) + 1 - (x.leading - y.leading)

/-- The quotient, cut toward zero to the given number of decimal places. -/
def cutQuotient (x y : Decimal) (places : Int) : Decimal :=
  let shift := x.exponent - y.exponent + places
  normal
    (if 0 ≤ shift then (x.mantissa * tenTo shift.toNat).tdiv y.mantissa
      else x.mantissa.tdiv (y.mantissa * tenTo (-shift).toNat))
    (-places)

/-- The rounded quotient; there is none by zero. -/
def div? (x y : Decimal) (rounding : Rounding) : Option Decimal :=
  if y.isZero then none
  else if x.isZero then some 0
  else some ((cutQuotient x y (guardPlaces x y rounding)).round rounding)

end Decimal

end ConstLang
