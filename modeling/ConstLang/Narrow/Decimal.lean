import ConstLang.Program.Basic

/-!
# Decimals with narrow exponents

The operations on decimals once more, with every exponent that is added, subtracted or negated on
the way held to a signed 64-bit word. One that no word holds is an overflow. Mantissas have as many
digits as they need, and the distance of two exponents, which is not signed, always has a word.
-/

namespace ConstLang.Narrow

open Digits

/-- An exponent that no signed 64-bit word holds. -/
structure Overflow where
  exponent : Int
deriving DecidableEq

def word (n : Int) : Except Overflow Int := if inExponentRange n then .ok n else .error ⟨n⟩

/-- Moves the trailing zeros of a mantissa into the exponent. -/
def normal (mantissa exponent : Int) : Except Overflow Decimal :=
  let x := Decimal.normal mantissa exponent
  (word x.exponent).map fun e => ⟨x.mantissa, e⟩

def leading (x : Decimal) : Except Overflow Int := do
  let behind ← word (x.digits - 1)
  word (behind + x.exponent)

/-! ## Operations -/

def aligned (op : Int → Int → Int) (x y : Decimal) : Except Overflow Decimal :=
  let e := x.commonExponent y
  normal (op (x.mantissaAt e) (y.mantissaAt e)) e

def mul (x y : Decimal) : Except Overflow Decimal := do
  let e ← word (x.exponent + y.exponent)
  normal (x.mantissa * y.mantissa) e

def rem? (x y : Decimal) : Except Overflow (Option Decimal) :=
  if y.isZero then .ok none else (aligned Int.tmod x y).map some

def round (x : Decimal) : Rounding → Except Overflow Decimal
  | .places count => do
    let places ← word (-x.exponent)
    if places ≤ count then return x
    else
      let e ← word (-count)
      normal (Decimal.dropDigits x.mantissa (places - count).toNat) e
  | .significant count =>
    if x.digits ≤ count then .ok x
    else do
      let dropped := x.digits - count
      let e ← word (x.exponent + dropped)
      normal (Decimal.dropDigits x.mantissa dropped) e

def guardPlaces (x y : Decimal) : Rounding → Except Overflow Int
  | .places count => word (count + 1)
  | .significant count => do
    let digits ← word (Int.bmod count (Nat.pow 2 64) + 1)
    let p ← leading x
    let q ← leading y
    let distance ← word (p - q)
    word (digits - distance)

def cutQuotient (x y : Decimal) (places : Int) : Except Overflow Decimal := do
  let distance ← word (x.exponent - y.exponent)
  let shift ← word (distance + places)
  let e ← word (-places)
  normal
    (if 0 ≤ shift then (x.mantissa * tenTo shift.toNat).tdiv y.mantissa
      else x.mantissa.tdiv (y.mantissa * tenTo (-shift).toNat)) e

def div? (x y : Decimal) (rounding : Rounding) : Except Overflow (Option Decimal) :=
  if y.isZero then .ok none
  else if x.isZero then .ok (some 0)
  else do
    let places ← guardPlaces x y rounding
    let quotient ← cutQuotient x y places
    (round quotient rounding).map some

/-- The result of an operation on numbers; there is none for a division by zero. -/
def operate? (op : Operator) (type : Scalar) (x y : Decimal) : Except Overflow (Option Decimal) :=
  match op with
  | .add => (aligned (· + ·) x y).map some
  | .subtract => (aligned (· - ·) x y).map some
  | .multiply => (mul x y).map some
  | .divide => div? x y type.quotientRounding
  | .remainder => rem? x y

/-! ## Comparing and binding -/

def compareAbs (x y : Decimal) : Except Overflow Ordering := do
  let p ← leading x
  let q ← leading y
  return (compare p q).then <|
    let e := x.commonExponent y
    compare (x.abs.mantissaAt e) (y.abs.mantissaAt e)

/-- Compares decimals. Absolute values are compared only if the signs are the same. -/
def order (x y : Decimal) : Except Overflow Ordering :=
  let signs := compare x.mantissa.sign y.mantissa.sign
  if signs ≠ .eq ∨ x.isZero then .ok signs
  else (compareAbs x y).map fun absolute => if x.isNegative then absolute.swap else absolute

def misfit? (x : Decimal) : Format → Except Overflow (Option Misfit)
  | .float digits least greatest =>
    if x.isZero then .ok none
    else if digits < x.digits then .ok (some .tooPrecise)
    else do
      let upper ← order x.abs greatest
      if upper = .gt then return some .outOfRange
      let lower ← order x.abs least
      if lower = .lt then return some .outOfRange
      return none
  | format => .ok (format.misfit? x)

def bind (type : Scalar) (x : Decimal) : Except Overflow (Except Misfit Decimal) := do
  let stored ← match type.format.storedRounding? with
    | some rounding => round x rounding
    | none => .ok x
  match ← misfit? stored type.format with
  | some misfit => return .error misfit
  | none => return .ok stored

/-! ## Literals -/

def writtenExponent? : Option (Bool × String) → Except Overflow (Option Int)
  | none => .ok (some 0)
  | some (negated, digits) =>
    match exponent? digits.toList with
    | none => .ok none
    | some n => if negated then (word (-n)).map some else .ok (some n)

/-- The exponent of the last digit and the bound on that of the first are tested before they are
used, so that they do not overflow. -/
def ofDigits (whole fraction : String) (exponent : Option (Bool × String)) :
    Except Overflow (Option Decimal) :=
  match integer? (whole.toList ++ fraction.toList) with
  | none => .ok none
  | some mantissa => do
    match ← writtenExponent? exponent with
    | none => return none
    | some shift =>
      let last := shift - fraction.utf8ByteSize
      let bound := last + (whole.utf8ByteSize + fraction.utf8ByteSize : Nat)
      if inExponentRange last && inExponentRange bound then (normal mantissa last).map some
      else return none

def value? (n : Numeral) : Except Overflow (Option Decimal) :=
  ofDigits n.whole (n.fraction.getD "") (n.exponent.map fun e => (e.isNegative, e.digits))

end ConstLang.Narrow
