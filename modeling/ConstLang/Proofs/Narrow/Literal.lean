import ConstLang.Proofs.Narrow.Decimal

/-!
# Narrow exponents suffice for literals

A literal may have an exponent at the very end of the word. What is computed from it before it is
refused is the position of its leading digit, which is no larger than the bound that was tested
when the literal was read.
-/

namespace ConstLang

open Digits

theorem Digits.value_lt {cs : List Char} (h : ∀ c ∈ cs, c.isDigit = true) :
    value cs < 10 ^ cs.length := by
  induction cs with
  | nil => decide
  | cons c cs ih =>
    have first : value [c] ≤ 9 := by
      have digit : c.toNat ≤ 57 := (Char.isDigit_iff_toNat.1 (h c List.mem_cons_self)).2
      have one : value [c] = c.toNat - 48 := by simp [value, Nat.ofDigitChars]
      omega
    have rest := ih fun d hd => h d (List.mem_cons_of_mem _ hd)
    have split : value (c :: cs) = value [c] * 10 ^ cs.length + value cs := value_append [c] cs
    have power : 10 ^ (cs.length + 1) = 10 * 10 ^ cs.length := pow_succ' 10 _
    have carry : value [c] * 10 ^ cs.length ≤ 9 * 10 ^ cs.length := Nat.mul_le_mul_right _ first
    rw [split, List.length_cons, power]
    omega

/-- The normal form of a number with so many digits. -/
theorem Decimal.normal_bounds {m len : ℕ} {e : ℤ} (few : m < 10 ^ len) (nonzero : m ≠ 0) :
    e ≤ (normal m e).exponent ∧ (normal m e).leading < e + len := by
  have value : (normal m e).toRat = (⟨m, e⟩ : Decimal).toRat := toRat_normal m e
  have positive : (normal m e).toRat ≠ 0 := by
    rw [value, Ne, toRat_eq_zero]
    exact fun zero => nonzero (Int.natCast_eq_zero.1 zero)
  refine ⟨(isNormal_normal m e).exponent_le positive value, ?_⟩
  have scale : (0 : ℚ) < 10 ^ e := by positivity
  have few : (m : ℚ) < 10 ^ len := by exact_mod_cast few
  rw [← log_abs_toRat positive, Rational.log_lt_iff (abs_pos.2 positive), value, abs_toRat,
    add_comm, zpow_add₀ (by norm_num), zpow_natCast]
  exact mul_lt_mul_of_pos_right few scale

theorem Numeral.length_digits_le (n : Numeral) : n.whole.length + n.places ≤ n.chars.length := by
  unfold chars places
  rw [List.length_append, List.length_append, String.length_toList]
  cases n.fraction with
  | none =>
    have none_behind : ("" : String).length = 0 := rfl
    rw [Option.getD_none, none_behind]
    omega
  | some digits =>
    rw [Option.getD_some, Option.map_some, Option.getD_some, List.length_cons,
      String.length_toList]
    omega

theorem Numeral.mantissa_lt (n : Numeral) : n.mantissa < 10 ^ (n.whole.length + n.places) := by
  have few := value_lt (isDigits_iff.1 n.isDigits_digits).2
  rwa [List.length_append, String.length_toList, String.length_toList] at few

theorem Numeral.one_le_length_whole (n : Numeral) : 1 ≤ n.whole.length := by
  have nonempty := (isDigits_iff.1 n.wholeRun.isDigits).1
  rw [← String.length_toList]
  exact List.length_pos_iff.2 nonempty

/-- What is read from a numeral has no more digits than the numeral. Its last digit is in range,
and so is its first, since no digit lies in front of the one whose place was tested. -/
theorem Numeral.bounds_of_value? {n : Numeral} {x : Decimal} (h : n.value? = some x) :
    -2 ^ 63 ≤ x.exponent ∧ x.leading < 2 ^ 63 ∧ x.digits ≤ n.whole.length + n.places := by
  obtain ⟨⟨-, last, first⟩, rfl⟩ := value?_eq_some_iff.1 h
  have last := inExponentRange_iff.1 last
  have first := inExponentRange_iff.1 first
  by_cases nonzero : n.mantissa = 0
  · have zero : Decimal.normal n.mantissa (n.exponentInt - n.places) = 0 := by
      rw [nonzero]
      rfl
    have pos := n.one_le_length_whole
    have digits : (0 : Decimal).digits = 1 := by decide
    rw [zero, digits]
    exact ⟨by decide, by decide, by omega⟩
  · obtain ⟨low, high⟩ := Decimal.normal_bounds (e := n.exponentInt - n.places) n.mantissa_lt
      nonzero
    have span (x : Decimal) : x.leading = x.digits - 1 + x.exponent := rfl
    have span := span (Decimal.normal n.mantissa (n.exponentInt - n.places))
    exact ⟨by omega, by omega, by omega⟩

namespace Narrow

/-- The digits of an exponent come to a natural number, whose negation has a word too. -/
theorem writtenExponent?_eq (e : Option Exponent) :
    writtenExponent? (e.map fun e => (e.isNegative, e.digits)) =
      .ok (Decimal.writtenExponent? (e.map fun e => (e.isNegative, e.digits))) := by
  cases e with
  | none => rfl
  | some e =>
    have digits : exponent? e.digits.toList = (some (e.run.value : ℤ)).filter inExponentRange :=
      exponent?_of_isDigits e.run.isDigits
    rw [Option.map_some, writtenExponent?, Decimal.writtenExponent?]
    cases written : exponent? e.digits.toList with
    | none => rfl
    | some n =>
      obtain ⟨same, range⟩ := Option.filter_eq_some_iff.1 (digits.symm.trans written)
      obtain rfl := Option.some.inj same
      have high := (inExponentRange_iff.1 range).2
      dsimp only
      rw [word_eq (by omega) (by omega)]
      cases e.isNegative <;> rfl

/-- Nothing overflows while a literal is read. -/
theorem value?_eq (n : Numeral) : value? n = .ok n.value? := by
  unfold value? ofDigits Numeral.value? Decimal.ofDigits
  rw [integer?_of_isDigits n.isDigits_digits, writtenExponent?_eq]
  cases written : Decimal.writtenExponent? (n.exponent.map fun e => (e.isNegative, e.digits)) with
  | none => rfl
  | some shift =>
    simp only [ok_bind]
    split
    · next tested =>
      have read : n.value? =
          some (Decimal.normal n.mantissa (shift - (n.fraction.getD "").utf8ByteSize)) := by
        rw [Numeral.value?, Decimal.ofDigits, integer?_of_isDigits n.isDigits_digits, written]
        exact if_pos tested
      obtain ⟨low, high, -⟩ := Numeral.bounds_of_value? read
      have order := Decimal.exponent_le_leading
        (Decimal.normal n.mantissa (shift - (n.fraction.getD "").utf8ByteSize))
      exact congrArg (Except.map some) (normal_eq low (order.trans_lt high))
    · rfl

theorem leading_eq_of_value? {n : Numeral} {x : Decimal} (h : n.value? = some x)
    (short : n.chars.length ≤ 2 ^ 63) : leading x = .ok x.leading := by
  obtain ⟨low, high, few⟩ := Numeral.bounds_of_value? h
  have few := few.trans n.length_digits_le
  exact leading_eq (few.trans short) (low.trans x.exponent_le_leading) high

end Narrow

end ConstLang
