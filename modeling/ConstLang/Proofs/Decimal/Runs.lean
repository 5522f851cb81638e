import ConstLang.Proofs.Decimal.Order
import ConstLang.Proofs.Decimal.Reading
import ConstLang.Proofs.Narrow.Literal

/-!
# Decimals of digit runs

A decimal is made of the digits in front of a point and behind it, and of a power of ten that is
written in digits, too. It is the number that is written, unless the exponents of its first and last
digit were refused. What was tested before the zeros at both ends of the digits were dropped is
enough: the normal form has its exponent and its leading digit in range as well.
-/

namespace ConstLang

open Digits

namespace Decimal

/-- Digits in front of a point, at least one, those behind it and those of an exponent. -/
structure Runs (whole fraction : String) (exponent : Option (Bool × String)) : Prop where
  whole : isDigits whole.toList = true
  fraction : ∀ c ∈ fraction.toList, c.isDigit = true
  exponent : ∀ e ∈ exponent, isDigits e.2.toList = true

/-- The power of ten that is written, with its sign. -/
def scale : Option (Bool × String) → ℤ
  | none => 0
  | some (negated, digits) => if negated then -value digits.toList else value digits.toList

variable {whole fraction : String} {exponent : Option (Bool × String)}

/-- Digit runs are the pieces of a number; without digits behind the point there is no point. -/
theorem Runs.exists_parts (runs : Runs whole fraction exponent) :
    ∃ n : Numeral, n.parts = (whole, fraction, exponent) := by
  obtain ⟨behind, written⟩ : ∃ behind : Option DigitRun,
      (behind.map DigitRun.text).getD "" = fraction := by
    by_cases none_behind : fraction.toList = []
    · exact ⟨none, (String.toList_inj.1 none_behind).symm⟩
    · exact ⟨some ⟨fraction, isDigits_iff.2 ⟨none_behind, runs.fraction⟩⟩, rfl⟩
  obtain ⟨power, same⟩ : ∃ power : Option Exponent,
      (power.map fun e => (e.isNegative, e.digits)) = exponent := by
    cases exponent with
    | none => exact ⟨none, rfl⟩
    | some e =>
      obtain ⟨negated, digits⟩ := e
      refine ⟨some ⟨'e', if negated then some .minus else none, digits, runs.exponent _ rfl⟩, ?_⟩
      cases negated <;> rfl
  refine ⟨⟨⟨whole, runs.whole⟩, behind, power⟩, ?_⟩
  rw [Numeral.parts, same]
  exact congrArg (fun digits => (whole, digits, exponent)) written

theorem scale_eq_exponentInt (n : Numeral) :
    scale (n.exponent.map fun e => (e.isNegative, e.digits)) = n.exponentInt := by
  unfold scale Numeral.exponentInt
  cases n.exponent <;> rfl

end Decimal

namespace Numeral

variable {n : Numeral} {x : Decimal}

/-- What is out of range when nothing is read from a numeral. -/
theorem value?_eq_none_iff : n.value? = none ↔
    (∃ e ∈ n.exponent, inExponentRange e.run.value = false) ∨
      inExponentRange (n.exponentInt - n.places) = false ∨
      inExponentRange (n.exponentInt + n.whole.length) = false := by
  have refused : n.value? = none ↔ ¬ n.InRange := by
    constructor
    · intro missing range
      have made := value?_eq_some_iff.2 ⟨range, rfl⟩
      rw [missing] at made
      contradiction
    · intro off
      by_contra present
      obtain ⟨x, made⟩ := Option.ne_none_iff_exists'.1 present
      exact off (value?_eq_some_iff.1 made).1
  rw [refused, InRange]
  simp only [not_and_or, not_forall, exists_prop, Bool.not_eq_true]

/-- Both ends of what is read from a numeral are in range. -/
theorem inExponentRange_of_value? (h : n.value? = some x) :
    inExponentRange x.exponent = true ∧ inExponentRange x.leading = true := by
  obtain ⟨low, high, -⟩ := bounds_of_value? h
  have ordered := x.exponent_le_leading
  exact ⟨inExponentRange_iff.2 (by omega), inExponentRange_iff.2 (by omega)⟩

theorem placed_of_value? (h : n.value? = some x) (short : n.whole.length + n.places ≤ 2 ^ 63) :
    Narrow.Placed x := by
  obtain ⟨low, high, few⟩ := bounds_of_value? h
  exact ⟨few.trans short, low.trans x.exponent_le_leading, high⟩

end Numeral

namespace Decimal

variable {whole fraction : String} {exponent : Option (Bool × String)}

/-- Digit runs make no decimal if a word does not hold the digits of the exponent, the exponent of
the last digit or the bound on that of the first one, zeros in front included. Any others make the
normal form of the number that is written. A word holds its exponent, which moves up by the zeros at
its end, and the place of its leading digit. So there is no overflow, neither while it is made nor,
with as many digits as a memory holds, when it is compared. -/
theorem ofDigits_exact (runs : Runs whole fraction exponent) :
    let last := scale exponent - fraction.length
    let count := whole.length + fraction.length
    (ofDigits whole fraction exponent = none ↔
      (∃ e ∈ exponent, inExponentRange (value e.2.toList) = false) ∨
        inExponentRange last = false ∨ inExponentRange (last + count) = false) ∧
    (∀ x, ofDigits whole fraction exponent = some x →
      x.IsNormal ∧ x.toRat = value (whole.toList ++ fraction.toList) * 10 ^ last ∧
      inExponentRange x.exponent = true ∧ inExponentRange x.leading = true ∧
      (count ≤ 2 ^ 63 → ∀ y, Narrow.Placed y →
        Narrow.order x y = .ok (compare x y) ∧ Narrow.order y x = .ok (compare y x))) ∧
    Narrow.ofDigits whole fraction exponent = .ok (ofDigits whole fraction exponent) := by
  obtain ⟨n, parts⟩ := runs.exists_parts
  obtain ⟨rfl, behind, power⟩ : n.whole = whole ∧ n.fraction.getD "" = fraction ∧
      n.exponent.map (fun e => (e.isNegative, e.digits)) = exponent := by
    simpa [Numeral.parts] using parts
  subst behind power
  intro last count
  have last_eq : last = n.exponentInt - n.places :=
    congrArg (· - (n.places : ℤ)) (scale_eq_exponentInt n)
  have bound : last + count = n.exponentInt + n.whole.length := by
    have count_eq : (count : ℤ) = n.whole.length + n.places := Int.natCast_add _ _
    rw [last_eq, count_eq]
    ring
  refine ⟨?_, fun x made => ?_, Narrow.value?_eq n⟩
  · have digits : (∃ e ∈ n.exponent.map fun e => (e.isNegative, e.digits),
        inExponentRange (value e.2.toList) = false) ↔
        ∃ e ∈ n.exponent, inExponentRange e.run.value = false := by
      cases n.exponent <;> simp [DigitRun.value, Exponent.digits]
    rw [digits, bound, last_eq]
    exact Numeral.value?_eq_none_iff
  · obtain ⟨-, normal⟩ := Numeral.value?_eq_some_iff.1 made
    obtain ⟨low, high⟩ := Numeral.inExponentRange_of_value? made
    refine ⟨isNormal_ofDigits made, ?_, low, high, fun short y hy => ?_⟩
    · rw [← normal, toRat_normal, last_eq, Int.cast_natCast]
      rfl
    · have hx := Numeral.placed_of_value? made short
      exact ⟨Narrow.order_eq hx.leading_eq hy.leading_eq,
        Narrow.order_eq hy.leading_eq hx.leading_eq⟩

/-- The last digit stands at the lowest exponent of a word, and zeros are dropped at both ends. -/
theorem ofDigits_exact_lowest :
    Runs "000" "0500" (some (true, "9223372036854775804")) ∧
    ofDigits "000" "0500" (some (true, "9223372036854775804")) = some ⟨5, -2 ^ 63 + 2⟩ ∧
    (⟨5, -2 ^ 63 + 2⟩ : Decimal).toRat =
      value ("000".toList ++ "0500".toList) * 10 ^ (-9223372036854775804 - 4 : ℤ) ∧
    Narrow.ofDigits "000" "0500" (some (true, "9223372036854775804")) =
      .ok (some ⟨5, -2 ^ 63 + 2⟩) ∧
    Narrow.order ⟨5, -2 ^ 63 + 2⟩ ⟨5, -2 ^ 63 + 2⟩ = .ok .eq := by
  have runs : Runs "000" "0500" (some (true, "9223372036854775804")) := by
    refine ⟨by decide +kernel, List.all_eq_true.1 (by decide +kernel), fun e mem => ?_⟩
    obtain rfl := Option.some.inj mem
    decide +kernel
  have made : ofDigits "000" "0500" (some (true, "9223372036854775804")) =
      some ⟨5, -2 ^ 63 + 2⟩ := by decide +kernel
  obtain ⟨-, exact, narrow⟩ := ofDigits_exact runs
  obtain ⟨-, number, -, -, compared⟩ := exact _ made
  have placed : Narrow.Placed ⟨5, -2 ^ 63 + 2⟩ := by constructor <;> decide +kernel
  have same : compare (⟨5, -2 ^ 63 + 2⟩ : Decimal) ⟨5, -2 ^ 63 + 2⟩ = .eq := by decide +kernel
  refine ⟨runs, made, ?_, made ▸ narrow, ?_⟩
  · exact number
  · rw [(compared (by decide) _ placed).1, same]

/-! Digits that are dropped count when the ends are tested, and the lowest exponent of a word has
no digits of its own. -/

example : ofDigits "10" "" (some (false, "9223372036854775806")) = none := by decide +kernel

example : ofDigits "1" "" (some (true, "9223372036854775808")) = none := by decide +kernel

end Decimal

end ConstLang
