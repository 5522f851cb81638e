import ConstLang.Decimal.Digits

/-!
# Exact decimals

A decimal is a mantissa times a power of ten. Every operation returns its result in normal form,
which has no trailing zero in the mantissa and exponent zero for zero, so that equal numbers are
equal structures.
-/

namespace ConstLang

/-- The number `mantissa * 10 ^ exponent`. -/
structure Decimal where
  mantissa : Int
  exponent : Int
deriving DecidableEq

namespace Decimal

open Digits

/-- Moves trailing zeros of a mantissa into the exponent, first a run of `2 ^ (k - 1)` of them if
there are so many, then one of half the length, and so on. -/
def strip : Nat → Int → Int → Decimal
  | 0, mantissa, exponent => ⟨mantissa, exponent⟩
  | k + 1, mantissa, exponent =>
    if mantissa % unit k = 0 then strip k (mantissa / unit k) (exponent + Nat.pow 2 k)
    else strip k mantissa exponent

/-- Moves the trailing zeros of a mantissa into the exponent; zero gets exponent zero. -/
def normal (mantissa exponent : Int) : Decimal :=
  if mantissa = 0 then ⟨0, 0⟩ else strip (depth mantissa.natAbs) mantissa exponent

/-- What `normal` returns: the mantissa ends in a nonzero digit, or the number is zero. -/
def IsNormal (x : Decimal) : Prop :=
  if x.mantissa = 0 then x.exponent = 0 else x.mantissa % 10 ≠ 0

instance (x : Decimal) : Decidable x.IsNormal := by
  unfold IsNormal
  infer_instance

theorem isNormal_strip (k : Nat) (mantissa exponent : Int) (few : mantissa % unit k ≠ 0) :
    (strip k mantissa exponent).IsNormal := by
  induction k generalizing mantissa exponent with
  | zero =>
    have last : mantissa % 10 ≠ 0 := few
    have nonzero : mantissa ≠ 0 := by rintro rfl; exact last rfl
    unfold strip IsNormal
    rwa [if_neg nonzero]
  | succ k ih =>
    unfold strip
    split
    · next run =>
      refine ih _ _ fun rest => few ?_
      rw [unit_succ, Int.natCast_mul, ← Int.mul_ediv_cancel' (Int.dvd_of_emod_eq_zero run)]
      exact Int.emod_eq_zero_of_dvd (Int.mul_dvd_mul_left _ (Int.dvd_of_emod_eq_zero rest))
    · next run => exact ih _ _ run

theorem isNormal_normal (mantissa exponent : Int) : (normal mantissa exponent).IsNormal := by
  unfold normal
  split
  · rfl
  · next nonzero =>
    refine isNormal_strip _ _ _ fun zeros => nonzero ?_
    have lt := lt_unit_depth mantissa.natAbs
    exact Int.eq_zero_of_dvd_of_natAbs_lt_natAbs (Int.dvd_of_emod_eq_zero zeros)
      (by rwa [Int.natAbs_natCast])

instance : Zero Decimal := ⟨⟨0, 0⟩⟩

def ofInt (n : Int) : Decimal := normal n 0

def isZero (x : Decimal) : Bool := x.mantissa == 0

def isNegative (x : Decimal) : Bool := decide (x.mantissa < 0)

/-- The number of significant digits; zero has one. -/
def digits (x : Decimal) : Nat := (Digits.ofNat x.mantissa.natAbs).length

/-- The power of ten that the leading digit stands for. -/
def leading (x : Decimal) : Int := x.digits - 1 + x.exponent

def neg (x : Decimal) : Decimal := ⟨-x.mantissa, x.exponent⟩

def abs (x : Decimal) : Decimal := ⟨x.mantissa.natAbs, x.exponent⟩

/-- The mantissa of `x` at the exponent `e`, which must not exceed its own. -/
def mantissaAt (x : Decimal) (e : Int) : Int := x.mantissa * tenTo (x.exponent - e).toNat

/-- The finest exponent of two decimals, at which both mantissas are integers. -/
def commonExponent (x y : Decimal) : Int := min x.exponent y.exponent

/-- Applies an operation on integers to the mantissas, brought to one exponent. -/
def aligned (op : Int → Int → Int) (x y : Decimal) : Decimal :=
  let e := commonExponent x y
  normal (op (x.mantissaAt e) (y.mantissaAt e)) e

def add (x y : Decimal) : Decimal := aligned (· + ·) x y

def sub (x y : Decimal) : Decimal := aligned (· - ·) x y

def mul (x y : Decimal) : Decimal := normal (x.mantissa * y.mantissa) (x.exponent + y.exponent)

instance : Neg Decimal := ⟨neg⟩
instance : Add Decimal := ⟨add⟩
instance : Sub Decimal := ⟨sub⟩
instance : Mul Decimal := ⟨mul⟩

/-- The remainder of the quotient cut toward zero, which takes the sign of `x`. -/
def rem? (x y : Decimal) : Option Decimal :=
  if y.isZero then none else some (aligned Int.tmod x y)

/-- The integer that a decimal is, if it is one. -/
def toInt? (x : Decimal) : Option Int :=
  if 0 ≤ x.exponent then some (x.mantissa * tenTo x.exponent.toNat) else none

/-- Compares absolute values. The position of the leading digit decides where it can, so that
numbers of very different size are never brought to one exponent. -/
def compareAbs (x y : Decimal) : Ordering :=
  (compare x.leading y.leading).then <|
    let e := commonExponent x y
    compare (x.abs.mantissaAt e) (y.abs.mantissaAt e)

/-- The order of the numbers: by sign, then by absolute value. -/
protected def compare (x y : Decimal) : Ordering :=
  (compare x.mantissa.sign y.mantissa.sign).then <|
    if x.isZero then .eq
    else if x.isNegative then (compareAbs x y).swap
    else compareAbs x y

instance : Ord Decimal := ⟨Decimal.compare⟩

end Decimal

end ConstLang
