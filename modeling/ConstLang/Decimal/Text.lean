import ConstLang.Decimal.Basic

/-!
# Decimal numerals

Writing and reading decimals as text. Moderate exponents are written in plain notation and the
others as mantissa and exponent. Reading keeps every digit: it refuses texts that are no numerals,
and numerals whose exponent leaves the signed 64-bit range.
-/

namespace ConstLang

/-- The smallest exponent above the range of a signed 64-bit word. -/
def exponentLimit : Int := Nat.pow 2 63

/-- The range of a signed 64-bit exponent. -/
def inExponentRange (n : Int) : Bool := decide (-exponentLimit ≤ n ∧ n < exponentLimit)

namespace Digits

/-- One or more decimal digits and nothing else. -/
def isDigits (cs : List Char) : Bool := !cs.isEmpty && cs.all Char.isDigit

/-- The number that a run of decimal digits denotes. -/
def value (cs : List Char) : Nat := Nat.ofDigitChars 10 cs 0

/-- A number whose digits may be grouped by underscores, other than in front. -/
def natural? (cs : List Char) : Option Nat :=
  if cs.isEmpty || cs.head? = some '_' then none
  else if cs.all fun c => c.isDigit || c = '_' then some (value (cs.filter (· ≠ '_')))
  else none

/-- A `natural?` with at most one sign in front. -/
def integer? : List Char → Option Int
  | '-' :: cs => (natural? cs).map fun n => -n
  | '+' :: cs => (natural? cs).map Int.ofNat
  | cs => (natural? cs).map Int.ofNat

/-- Plain digits with at most one sign in front, within the exponent range. -/
def exponent? (cs : List Char) : Option Int :=
  let signed := match cs with
    | '-' :: rest => if isDigits rest then some (-(value rest : Int)) else none
    | '+' :: rest => if isDigits rest then some (value rest : Int) else none
    | rest => if isDigits rest then some (value rest : Int) else none
  signed.filter inExponentRange

end Digits

namespace Decimal

open Digits

/-- The largest distance of the exponent from zero that is written in plain notation. -/
def plainLimit : Nat := 21

/-- The digits of a number, with a decimal point before the last `places` of them. -/
def pointed (digits : List Char) (places : Nat) : List Char :=
  if places < digits.length then
    digits.take (digits.length - places) ++ '.' :: digits.drop (digits.length - places)
  else '0' :: '.' :: (List.replicate (places - digits.length) '0' ++ digits)

def chars (x : Decimal) : List Char :=
  if plainLimit < x.exponent.natAbs then Digits.ofInt x.mantissa ++ 'e' :: Digits.ofInt x.exponent
  else
    let digits := Digits.ofNat x.mantissa.natAbs
    let plain :=
      if 0 ≤ x.exponent then digits ++ List.replicate x.exponent.toNat '0'
      else pointed digits x.exponent.natAbs
    if x.isNegative then '-' :: plain else plain

/-- Plain notation for moderate exponents, `<mantissa>e<exponent>` for the others. -/
def text (x : Decimal) : String := String.ofList x.chars

instance : ToString Decimal := ⟨text⟩

/-- The exponent written by digits, which a flag negates; none is zero. -/
def writtenExponent? : Option (Bool × String) → Option Int
  | none => some 0
  | some (negated, digits) => (exponent? digits.toList).map fun n => if negated then -n else n

/-- The decimal written by a whole part, a fraction and an exponent. There is none if one of the
parts is no numeral, or if the exponent of the last digit or a bound on that of the first leaves
the exponent range. -/
def ofDigits (whole fraction : String) (exponent : Option (Bool × String)) : Option Decimal :=
  match integer? (whole.toList ++ fraction.toList), writtenExponent? exponent with
  | some mantissa, some shift =>
    let last := shift - fraction.utf8ByteSize
    let bound := last + (whole.utf8ByteSize + fraction.utf8ByteSize : Nat)
    if inExponentRange last && inExponentRange bound then some (normal mantissa last) else none
  | _, _ => none

/-- Why a text could not be read as a decimal. -/
inductive ReadError
  | invalid (text : String)
  | outOfRange (text : String)
deriving DecidableEq

def ReadError.message : ReadError → String
  | .invalid text => s!"`{text}` is not a decimal number"
  | .outOfRange text => s!"exponent of `{text}` is out of range"

/-- Splits before and after the first character that satisfies `p`; without one there is no
second part. -/
def splitAtFirst (p : Char → Bool) (cs : List Char) : List Char × Option (List Char) :=
  (cs.takeWhile fun c => !p c, (cs.dropWhile fun c => !p c).tail?)

/-- The sign and the digits of an exponent. -/
def exponentParts : List Char → Bool × List Char
  | '-' :: digits => (true, digits)
  | '+' :: digits => (false, digits)
  | digits => (false, digits)

/-- The parts of `digits[.digits][(e|E)[+|-]digits]`, for `ofDigits`. -/
def parts? (cs : List Char) : Option (String × String × Option (Bool × String)) := do
  let (number, exponent) := splitAtFirst (fun c => c = 'e' || c = 'E') cs
  let (whole, fraction) := splitAtFirst (· = '.') number
  guard (isDigits whole && (fraction.map isDigits).getD true)
  let exponent := exponent.map exponentParts
  guard ((exponent.map fun e => isDigits e.2).getD true)
  return (String.ofList whole, String.ofList (fraction.getD []),
    exponent.map fun e => (e.1, String.ofList e.2))

/-- Reads `[-]digits[.digits][(e|E)[+|-]digits]`. -/
def read (text : String) : Except ReadError Decimal :=
  let (negative, body) := match text.toList with
    | '-' :: cs => (true, cs)
    | cs => (false, cs)
  match parts? body with
  | none => .error (.invalid text)
  | some (whole, fraction, exponent) =>
    match ofDigits whole fraction exponent with
    | none => .error (.outOfRange text)
    | some x => .ok (if negative then -x else x)

end Decimal

end ConstLang
