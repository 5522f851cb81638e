import ConstLang.Decimal.Rounding

/-!
# Scalar types

The closed set of types that a constant can have, and which decimals each of them holds: integers
of a width, floats of a number of significant digits and a magnitude, or every decimal.
-/

namespace ConstLang

/-- The scalar types. The digit is the width in bytes and `x` stands for the width of an address;
`rinf` holds every decimal. -/
inductive Scalar
  | i1 | i2 | i4 | i8 | ix
  | u1 | u2 | u4 | u8 | ux
  | f4 | f8
  | rinf
deriving DecidableEq

/-- Which decimals a scalar type holds. -/
inductive Format
  /-- The integers of a range, both ends included. -/
  | integer (least greatest : Int)
  /-- Zero, and the decimals with a limited number of significant digits and an absolute value
  between the bounds. -/
  | float (digits : Nat) (least greatest : Decimal)
  /-- Every decimal. -/
  | exact

/-- Why a decimal does not fit a scalar type. -/
inductive Misfit
  | notIntegral
  | outOfRange
  | tooPrecise
deriving DecidableEq

def Misfit.reason : Misfit → String
  | notIntegral => "not an integer"
  | outOfRange => "out of range"
  | tooPrecise => "too many significant digits"

namespace Format

/-- The integers of a number of bits, in two's complement. -/
def signed (bits : Nat) : Format :=
  let half : Int := Nat.pow 2 (bits - 1)
  integer (-half) (half - 1)

/-- The natural numbers of a number of bits. -/
def unsigned (bits : Nat) : Format :=
  let count : Int := Nat.pow 2 bits
  integer 0 (count - 1)

/-- No integer type reaches this power of ten, so larger exponents are never written out. -/
def integerExponentLimit : Int := 20

/-- Why a decimal is not in the format; nothing if it is. -/
def misfit? (x : Decimal) : Format → Option Misfit
  | integer least greatest =>
    if integerExponentLimit < x.exponent then some .outOfRange
    else match x.toInt? with
      | none => some .notIntegral
      | some n => if least ≤ n ∧ n ≤ greatest then none else some .outOfRange
  | float digits least greatest =>
    if x.isZero then none
    else if digits < x.digits then some .tooPrecise
    else if compare x.abs greatest = .gt ∨ compare x.abs least = .lt then some .outOfRange
    else none
  | exact => none

/-- The rounding of a decimal that is stored; only floats round. -/
def storedRounding? : Format → Option Rounding
  | float digits _ _ => some (.significant digits)
  | _ => none

/-- The rounding of a quotient. -/
def quotientRounding : Format → Rounding
  | integer _ _ => .places 0
  | float digits _ _ => .significant digits
  | exact => .significant 34

end Format

namespace Scalar

/-- Every scalar type, in the order of declaration. -/
def all : List Scalar := [i1, i2, i4, i8, ix, u1, u2, u4, u8, ux, f4, f8, rinf]

def name : Scalar → String
  | i1 => "i1" | i2 => "i2" | i4 => "i4" | i8 => "i8" | ix => "ix"
  | u1 => "u1" | u2 => "u2" | u4 => "u4" | u8 => "u8" | ux => "ux"
  | f4 => "f4" | f8 => "f8"
  | rinf => "rinf"

/-- The scalar type of this name. -/
def ofName? (name : String) : Option Scalar := all.find? fun s => s.name = name

theorem ofName?_name (s : Scalar) : ofName? s.name = some s := by
  cases s <;> decide

theorem name_of_ofName? {name : String} {s : Scalar} (h : ofName? name = some s) :
    s.name = name := by
  simpa using List.find?_some h

/-- Whether a variable may have this type. -/
def isStorable (s : Scalar) : Bool := s ≠ rinf

/-- The scalar type that is a reserved word: each one that a variable may have. -/
def keyword? (word : String) : Option Scalar := (ofName? word).filter isStorable

def format : Scalar → Format
  | i1 => .signed 8
  | i2 => .signed 16
  | i4 => .signed 32
  | i8 | ix => .signed 64
  | u1 => .unsigned 8
  | u2 => .unsigned 16
  | u4 => .unsigned 32
  | u8 | ux => .unsigned 64
  | f4 => .float 7 ⟨14, -46⟩ ⟨34028235, 31⟩
  | f8 => .float 16 ⟨49, -325⟩ ⟨17976931348623157, 292⟩
  | rinf => .exact

/-- Why this type does not hold a decimal as it is; nothing if it does. -/
def misfit? (s : Scalar) (x : Decimal) : Option Misfit := s.format.misfit? x

/-- The rounding of a quotient computed in this type. -/
def quotientRounding (s : Scalar) : Rounding := s.format.quotientRounding

/-- The decimal that this type stores for `x`: rounded if the type rounds, and then held as it
is. -/
def bind (s : Scalar) (x : Decimal) : Except Misfit Decimal :=
  let stored := match s.format.storedRounding? with
    | some rounding => x.round rounding
    | none => x
  match s.misfit? stored with
  | some misfit => .error misfit
  | none => .ok stored

end Scalar

/-- The type of an expression: that of type names, or a scalar type. -/
inductive Ty
  | metatype
  | scalar (s : Scalar)
deriving DecidableEq

namespace Ty

def name : Ty → String
  | metatype => "meta"
  | scalar s => s.name

def scalar? : Ty → Option Scalar
  | metatype => none
  | scalar s => some s

end Ty

end ConstLang
