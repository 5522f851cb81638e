import ConstLang.Lexeme
import ConstLang.Proofs.Decimal.Value
import ConstLang.Utf8

/-!
# The number that a numeral denotes

A numeral denotes its whole part and its fraction, times the power of ten that its exponent says.
The main statement is `Numeral.toRat_of_value?`: the decimal that is read from a numeral is that
number. `Numeral.value?_eq_some_iff` says which numerals there is one for.
-/

namespace ConstLang

/-- The number that a run of digits denotes. -/
def DigitRun.value (run : DigitRun) : ℕ := Digits.value run.text.toList

/-- The exponent with its sign. -/
def Exponent.toInt (e : Exponent) : ℤ :=
  if e.isNegative then -e.run.value else e.run.value

namespace Numeral

/-- The number behind the decimal point; without a point it is zero. -/
def fractionRat (n : Numeral) : ℚ :=
  match n.fractionRun with
  | none => 0
  | some run => run.value / 10 ^ run.text.length

/-- The power of ten that a numeral is scaled by. -/
def exponentInt (n : Numeral) : ℤ :=
  match n.exponent with
  | none => 0
  | some e => e.toInt

/-- The number that is written: `whole.fraction` times ten to the exponent. -/
def toRat (n : Numeral) : ℚ := (n.wholeRun.value + n.fractionRat) * 10 ^ n.exponentInt

/-- The integer that all digits denote, those behind the point included. -/
def mantissa (n : Numeral) : ℕ := Digits.value (n.whole.toList ++ (n.fraction.getD "").toList)

/-- The number of digits behind the point. -/
def places (n : Numeral) : ℕ := (n.fraction.getD "").length

end Numeral

namespace Digits

theorem isDigits_iff {cs : List Char} :
    isDigits cs = true ↔ cs ≠ [] ∧ ∀ c ∈ cs, c.isDigit = true := by
  simp [isDigits]

theorem isDigits_ofList {cs : List Char} (h : isDigits cs = true) :
    isDigits (String.ofList cs).toList = true := by
  rwa [String.toList_ofList]

theorem utf8Size_of_isDigit {c : Char} (h : c.isDigit = true) : c.utf8Size = 1 := by
  have upper : c.toNat ≤ 57 := (Char.isDigit_iff_toNat.1 h).2
  refine Char.utf8Size_eq_one_iff.2 ?_
  exact UInt32.le_iff_toNat_le.2 (upper.trans (by decide))

theorem size_of_digits {cs : List Char} (h : ∀ c ∈ cs, c.isDigit = true) :
    Utf8.size cs = cs.length := by
  induction cs with
  | nil => rfl
  | cons c cs ih =>
    rw [Utf8.size_cons, utf8Size_of_isDigit (h c (by simp)), ih fun d hd => h d (by simp [hd]),
      List.length_cons, add_comm]

theorem utf8ByteSize_of_digits {text : String} (h : ∀ c ∈ text.toList, c.isDigit = true) :
    text.utf8ByteSize = text.length := by
  rw [Utf8.utf8ByteSize_eq, size_of_digits h, String.length_toList]

theorem natural?_of_isDigits {cs : List Char} (h : isDigits cs = true) :
    natural? cs = some (value cs) := by
  obtain ⟨nonempty, digits⟩ := isDigits_iff.1 h
  have plain : ∀ c ∈ cs, c ≠ '_' := by
    rintro c mem rfl
    exact absurd (digits _ mem) (by decide)
  have kept : cs.filter (· ≠ '_') = cs := List.filter_eq_self.2 (by simpa using plain)
  have head : cs.head? ≠ some '_' := fun head => plain _ (List.mem_of_head? head) rfl
  rw [natural?, if_neg (by simp [nonempty, head]), if_pos (by simp +contextual [digits]), kept]

theorem integer?_of_isDigits {cs : List Char} (h : isDigits cs = true) :
    integer? cs = some (value cs : ℤ) := by
  have digits := (isDigits_iff.1 h).2
  unfold integer?
  split
  · exact absurd (digits '-' (by simp)) (by decide)
  · exact absurd (digits '+' (by simp)) (by decide)
  · rw [natural?_of_isDigits h]
    rfl

theorem exponent?_of_isDigits {cs : List Char} (h : isDigits cs = true) :
    exponent? cs = (some (value cs : ℤ)).filter inExponentRange := by
  have digits := (isDigits_iff.1 h).2
  unfold exponent?
  split
  · exact absurd (digits '-' (by simp)) (by decide)
  · exact absurd (digits '+' (by simp)) (by decide)
  · rw [if_pos h]

theorem value_append (cs ds : List Char) :
    value (cs ++ ds) = value cs * 10 ^ ds.length + value ds := by
  rw [value, value, value, Nat.ofDigitChars_append, Nat.ofDigitChars_eq_ofDigitChars_zero, mul_comm]

end Digits

open Digits

namespace Numeral

theorem isDigits_digits (n : Numeral) :
    isDigits (n.whole.toList ++ (n.fraction.getD "").toList) = true := by
  obtain ⟨nonempty, whole⟩ := isDigits_iff.1 n.wholeRun.isDigits
  refine isDigits_iff.2 ⟨by simp [Numeral.whole, nonempty], fun c mem => ?_⟩
  rcases List.mem_append.1 mem with mem | mem
  · exact whole c mem
  · unfold Numeral.fraction at mem
    cases hf : n.fractionRun with
    | none => simp [hf] at mem
    | some run => exact (isDigits_iff.1 run.isDigits).2 c (by simpa [hf] using mem)

/-- Digits behind the point count as digits of the mantissa that are shifted back. -/
theorem toRat_eq (n : Numeral) : n.toRat = n.mantissa * 10 ^ (n.exponentInt - n.places) := by
  have mantissa : (n.mantissa : ℚ) = (n.wholeRun.value + n.fractionRat) * 10 ^ n.places := by
    rw [Numeral.mantissa, places, value_append, whole, fraction, fractionRat]
    cases n.fractionRun with
    | none => simp [value, DigitRun.value]
    | some run =>
      have scale : (10 : ℚ) ^ run.text.length ≠ 0 := by positivity
      simp only [Option.map_some, Option.getD_some, String.length_toList]
      push_cast
      rw [add_mul, div_mul_cancel₀ _ scale]
      rfl
  rw [mantissa, toRat, mul_assoc, ← zpow_natCast, ← zpow_add₀ (by norm_num), add_sub_cancel]

theorem writtenExponent?_eq_some_iff {n : Numeral} {shift : ℤ} :
    Decimal.writtenExponent? (n.exponent.map fun e => (e.isNegative, e.digits)) = some shift ↔
      (∀ e ∈ n.exponent, inExponentRange e.run.value = true) ∧ shift = n.exponentInt := by
  unfold exponentInt
  cases n.exponent with
  | none => simpa [Decimal.writtenExponent?] using eq_comm
  | some e =>
    have digits : exponent? e.digits.toList = (some (e.run.value : ℤ)).filter inExponentRange :=
      exponent?_of_isDigits e.run.isDigits
    rw [Option.map_some, Decimal.writtenExponent?, digits, Option.map_eq_some_iff]
    constructor
    · rintro ⟨m, hm, rfl⟩
      obtain ⟨same, range⟩ := Option.filter_eq_some_iff.1 hm
      obtain rfl := Option.some.inj same
      exact ⟨by simpa using range, rfl⟩
    · rintro ⟨range, rfl⟩
      exact ⟨e.run.value, Option.filter_eq_some_iff.2 ⟨rfl, range e rfl⟩, rfl⟩

/-- The exponent that is written, that of the last digit and a bound on that of the first one are
in range. -/
def InRange (n : Numeral) : Prop :=
  (∀ e ∈ n.exponent, inExponentRange e.run.value = true) ∧
  inExponentRange (n.exponentInt - n.places) = true ∧
  inExponentRange (n.exponentInt + n.whole.length) = true

theorem value?_eq_some_iff {n : Numeral} {x : Decimal} :
    n.value? = some x ↔ n.InRange ∧ Decimal.normal n.mantissa (n.exponentInt - n.places) = x := by
  have whole : n.whole.utf8ByteSize = n.whole.length :=
    utf8ByteSize_of_digits (isDigits_iff.1 n.wholeRun.isDigits).2
  have fraction : (n.fraction.getD "").utf8ByteSize = n.places :=
    utf8ByteSize_of_digits fun c mem =>
      (isDigits_iff.1 n.isDigits_digits).2 c (List.mem_append_right _ mem)
  have bound (shift : ℤ) : shift - n.places + (n.whole.length + n.places : ℕ) =
      shift + n.whole.length := by omega
  unfold value? Decimal.ofDigits
  rw [integer?_of_isDigits n.isDigits_digits, whole, fraction]
  cases written : Decimal.writtenExponent? (n.exponent.map fun e => (e.isNegative, e.digits)) with
  | none =>
    have off : ¬ n.InRange := by
      rintro ⟨range, -⟩
      rw [writtenExponent?_eq_some_iff.2 ⟨range, rfl⟩] at written
      contradiction
    simp only [off, false_and, reduceCtorEq]
  | some shift =>
    obtain ⟨range, rfl⟩ := writtenExponent?_eq_some_iff.1 written
    have only_bounds : n.InRange ↔ inExponentRange (n.exponentInt - n.places) = true ∧
        inExponentRange (n.exponentInt + n.whole.length) = true := and_iff_right range
    simp only [bound, Option.ite_none_right_eq_some, Bool.and_eq_true, Option.some.injEq,
      only_bounds, mantissa]

theorem toRat_of_value? {n : Numeral} {x : Decimal} (h : n.value? = some x) :
    x.toRat = n.toRat := by
  obtain ⟨-, rfl⟩ := value?_eq_some_iff.1 h
  rw [Decimal.toRat_normal, toRat_eq, Int.cast_natCast]

end Numeral

end ConstLang
