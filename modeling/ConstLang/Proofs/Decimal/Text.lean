import ConstLang.Proofs.Decimal.Canonical
import ConstLang.Proofs.Token.Numeral

/-!
# Decimals that are written and read back

What is written for a decimal spells a number, with a minus in front if the decimal is negative. In
each of the notations the number is the absolute value of the decimal, so a decimal in normal form
is read back from its text, unless the bounds that the reader puts on exponents are left.
-/

namespace ConstLang

/-! ## Digits that are written -/

namespace Digits

theorem isDigits_ofNat (n : ℕ) : isDigits (ofNat n) = true := by
  rw [ofNat_eq_toDigits, isDigits_iff]
  exact ⟨Nat.toDigits_ne_nil, fun c => Nat.isDigit_of_mem_toDigits (by decide) (by decide)⟩

@[simp] theorem value_ofNat (n : ℕ) : value (ofNat n) = n := by
  rw [ofNat_eq_toDigits, value, Nat.ofDigitChars_toDigits (by decide) (by decide)]

@[simp] theorem value_zeros (zeros : ℕ) : value (List.replicate zeros '0') = 0 := by
  induction zeros with
  | zero => rfl
  | succ zeros ih =>
    rw [List.replicate_succ', value_append, ih]
    rfl

/-- Digits of a number, and zeros perhaps, are digits again. -/
theorem isDigits_of_mem {cs ds : List Char} (h : isDigits cs = true) (nonempty : ds ≠ [])
    (mem : ∀ c ∈ ds, c ∈ cs ∨ c = '0') : isDigits ds = true := by
  refine isDigits_iff.2 ⟨nonempty, fun c hc => ?_⟩
  rcases mem c hc with digit | rfl
  · exact (isDigits_iff.1 h).2 c digit
  · rfl

theorem ofInt_eq (n : ℤ) : ofInt n = Decimal.signed (decide (n < 0)) (ofNat n.natAbs) := by
  simp [ofInt, Decimal.signed]

end Digits

open Digits

namespace DigitRun

/-- The digits of a natural number. -/
def ofNat (n : ℕ) : DigitRun := .ofChars (Digits.ofNat n) (isDigits_ofNat n)

@[simp] theorem toList_ofNat (n : ℕ) : (ofNat n).text.toList = Digits.ofNat n := toList_ofChars _

@[simp] theorem value_ofNat (n : ℕ) : (ofNat n).value = n := by
  rw [value, toList_ofNat, Digits.value_ofNat]

end DigitRun

namespace Exponent

/-- The exponent that is written for an integer. -/
def ofInt (e : ℤ) : Exponent := ⟨'e', if e < 0 then some .minus else none, .ofNat e.natAbs⟩

theorem chars_ofInt (e : ℤ) : (ofInt e).chars = 'e' :: Digits.ofInt e := by
  rw [Digits.ofInt_eq, chars, digits, ofInt, DigitRun.toList_ofNat]
  by_cases negative : e < 0 <;> simp [negative, Decimal.signed, Sign.symbol]

theorem toInt_ofInt (e : ℤ) : (ofInt e).toInt = e := by
  rw [toInt, isNegative, ofInt, DigitRun.value_ofNat]
  by_cases negative : e < 0
  · simp only [negative, ↓reduceIte, decide_true]
    omega
  · simp only [negative, ↓reduceIte, reduceCtorEq, decide_false, Bool.false_eq_true]
    omega

end Exponent

namespace Numeral

theorem mantissa_run (whole : DigitRun) :
    (⟨whole, none, none⟩ : Numeral).mantissa = value whole.text.toList := by
  simp [mantissa, Numeral.whole, fraction]

theorem mantissa_point (whole fraction : DigitRun) :
    (⟨whole, some fraction, none⟩ : Numeral).mantissa =
      value (whole.text.toList ++ fraction.text.toList) := rfl

theorem places_point (whole fraction : DigitRun) :
    (⟨whole, some fraction, none⟩ : Numeral).places = fraction.text.length := rfl

/-- A spelling is that of one number. -/
theorem eq_of_chars_eq {m n : Numeral} (hm : m.IsSpelling) (hn : n.IsSpelling)
    (same : m.chars = n.chars) : m = n := by
  obtain ⟨d, ds, written, -⟩ := n.exists_cons
  have left := Lexeme.first_of_chars hm (same.trans written)
  exact Lexeme.number.inj (left.symm.trans (Lexeme.first_of_chars hn written))

end Numeral

namespace Decimal

variable {x : Decimal}

theorem signed_append (negative : Bool) (cs ds : List Char) :
    signed negative cs ++ ds = signed negative (cs ++ ds) := by
  cases negative <;> rfl

/-- A decimal whose text can be read. The smallest exponent is not, because its digits are read
before its sign; nor is one that leaves the range when the number of digits is added. -/
def IsReadable (x : Decimal) : Prop :=
  -exponentLimit < x.exponent ∧ x.exponent + x.digits < exponentLimit

instance (x : Decimal) : Decidable x.IsReadable := by
  unfold IsReadable
  infer_instance

/-- A number is what is written for a decimal, its sign aside. -/
structure Spells (n : Numeral) (x : Decimal) : Prop where
  spelling : n.IsSpelling
  chars : x.chars = signed x.isNegative n.chars
  toRat : n.toRat = |x.toRat|
  inRange : inExponentRange x.exponent = true → (n.InRange ↔ x.IsReadable)

/-! ## The four notations -/

theorem spells_scaled (far : plainLimit < x.exponent.natAbs) :
    Spells ⟨.ofNat x.mantissa.natAbs, none, some (.ofInt x.exponent)⟩ x where
  spelling e mem := .inl (by rw [← Option.some.inj mem]; rfl)
  chars := by
    rw [Decimal.chars, if_pos far, Digits.ofInt_eq x.mantissa, isNegative, signed_append]
    simp [Numeral.chars, Numeral.whole, Numeral.fraction, Exponent.chars_ofInt]
  toRat := by
    rw [Numeral.toRat_eq, abs_toRat]
    simp [Numeral.mantissa, Numeral.exponentInt, Numeral.places, Numeral.whole, Numeral.fraction,
      Exponent.toInt_ofInt]
  inRange range := by
    have digits : (DigitRun.ofNat x.mantissa.natAbs).text.length = x.digits := by
      rw [← String.length_toList, DigitRun.toList_ofNat, Decimal.digits]
    have run : (Exponent.ofInt x.exponent).run.value = x.exponent.natAbs := DigitRun.value_ofNat _
    simp only [Numeral.InRange, Numeral.exponentInt, Numeral.places, Numeral.whole,
      Numeral.fraction, Option.map_none, Option.getD_none, String.length_empty,
      Exponent.toInt_ofInt, Option.mem_def, Option.some.injEq, forall_eq', run, digits]
    simp only [IsReadable, inExponentRange, decide_eq_true_eq] at range ⊢
    omega

theorem spells_plain {n : Numeral} (near : x.exponent.natAbs ≤ plainLimit)
    (bare : n.exponent = none) (chars : x.chars = signed x.isNegative n.chars)
    (mantissa : n.mantissa = x.mantissa.natAbs * 10 ^ x.exponent.toNat)
    (places : n.places = (-x.exponent).toNat)
    (bound : n.whole.length < exponentLimit ↔ x.exponent + x.digits < exponentLimit) :
    Spells n x where
  spelling e mem := by
    rw [bare] at mem
    contradiction
  chars := chars
  toRat := by
    have split : (x.exponent.toNat : ℤ) + (0 - (-x.exponent).toNat) = x.exponent := by omega
    have exponent : n.exponentInt = 0 := by rw [Numeral.exponentInt, bare]
    rw [Numeral.toRat_eq, abs_toRat, mantissa, places, exponent, Nat.cast_mul, Nat.cast_pow,
      Nat.cast_ofNat, mul_assoc, ← zpow_natCast, ← zpow_add₀ (by norm_num), split]
  inRange _ := by
    have exponent : n.exponentInt = 0 := by rw [Numeral.exponentInt, bare]
    have limit : (plainLimit : ℤ) < exponentLimit := by decide
    simp only [Numeral.InRange, IsReadable, inExponentRange, bare, exponent, places,
      Option.mem_def, reduceCtorEq, false_implies, implies_true, true_and, decide_eq_true_eq]
    omega

/-- In plain notation a sign stands in front, and then the digits, which are cut at the point. -/
theorem chars_of_near (near : x.exponent.natAbs ≤ plainLimit) :
    x.chars = signed x.isNegative
      (if 0 ≤ x.exponent then
        Digits.ofNat x.mantissa.natAbs ++ List.replicate x.exponent.toNat '0'
      else pointed (Digits.ofNat x.mantissa.natAbs) x.exponent.natAbs) := by
  rw [chars, if_neg (Nat.not_lt.2 near)]
  rfl

theorem spells_whole (near : x.exponent.natAbs ≤ plainLimit) (whole : 0 ≤ x.exponent) :
    ∃ n, Spells n x := by
  have digits := isDigits_ofNat x.mantissa.natAbs
  have padded : isDigits (Digits.ofNat x.mantissa.natAbs ++ List.replicate x.exponent.toNat '0') =
      true := by
    refine isDigits_of_mem digits (by simp [(isDigits_iff.1 digits).1]) fun c mem => ?_
    exact (List.mem_append.1 mem).imp_right List.eq_of_mem_replicate
  refine ⟨⟨.ofChars _ padded, none, none⟩, spells_plain near rfl ?_ ?_ ?_ ?_⟩
  · rw [chars_of_near near, if_pos whole, Numeral.chars_run, DigitRun.toList_ofChars]
  · rw [Numeral.mantissa_run, DigitRun.toList_ofChars, value_append, value_ofNat, value_zeros,
      List.length_replicate, Nat.add_zero]
  · rw [Int.toNat_of_nonpos (Int.neg_nonpos_of_nonneg whole)]
    rfl
  · rw [Numeral.whole, DigitRun.length_ofChars, List.length_append, List.length_replicate,
      Decimal.digits]
    omega

theorem spells_pointed (near : x.exponent.natAbs ≤ plainLimit) (part : x.exponent < 0)
    (inside : x.exponent.natAbs < x.digits) : ∃ n, Spells n x := by
  have digits := isDigits_ofNat x.mantissa.natAbs
  rw [Decimal.digits] at inside
  have left : isDigits ((Digits.ofNat x.mantissa.natAbs).take
      ((Digits.ofNat x.mantissa.natAbs).length - x.exponent.natAbs)) = true := by
    refine isDigits_of_mem digits ?_ fun c mem => .inl (List.mem_of_mem_take mem)
    rw [← List.length_pos_iff, List.length_take]
    omega
  have right : isDigits ((Digits.ofNat x.mantissa.natAbs).drop
      ((Digits.ofNat x.mantissa.natAbs).length - x.exponent.natAbs)) = true := by
    refine isDigits_of_mem digits ?_ fun c mem => .inl (List.mem_of_mem_drop mem)
    rw [← List.length_pos_iff, List.length_drop]
    omega
  refine ⟨⟨.ofChars _ left, some (.ofChars _ right), none⟩, spells_plain near rfl ?_ ?_ ?_ ?_⟩
  · rw [chars_of_near near, if_neg (Int.not_le.2 part), pointed, if_pos inside,
      Numeral.chars_point, DigitRun.toList_ofChars, DigitRun.toList_ofChars]
  · rw [Numeral.mantissa_point, DigitRun.toList_ofChars, DigitRun.toList_ofChars,
      List.take_append_drop, value_ofNat, Int.toNat_of_nonpos part.le, pow_zero, mul_one]
  · rw [Numeral.places_point, DigitRun.length_ofChars, List.length_drop]
    omega
  · rw [Numeral.whole, DigitRun.length_ofChars, List.length_take, Decimal.digits]
    omega

theorem spells_fraction (near : x.exponent.natAbs ≤ plainLimit) (part : x.exponent < 0)
    (behind : x.digits ≤ x.exponent.natAbs) : ∃ n, Spells n x := by
  have digits := isDigits_ofNat x.mantissa.natAbs
  rw [Decimal.digits] at behind
  have padded : isDigits (List.replicate
      (x.exponent.natAbs - (Digits.ofNat x.mantissa.natAbs).length) '0' ++
        Digits.ofNat x.mantissa.natAbs) = true := by
    refine isDigits_of_mem digits (by simp [(isDigits_iff.1 digits).1]) fun c mem => ?_
    exact (List.mem_append.1 mem).symm.imp_right List.eq_of_mem_replicate
  refine ⟨⟨.zero, some (.ofChars _ padded), none⟩, spells_plain near rfl ?_ ?_ ?_ ?_⟩
  · rw [chars_of_near near, if_neg (Int.not_le.2 part), pointed, if_neg (Nat.not_lt.2 behind),
      Numeral.chars_point, DigitRun.toList_ofChars]
    rfl
  · have zero : value DigitRun.zero.text.toList = 0 := rfl
    rw [Numeral.mantissa_point, DigitRun.toList_ofChars, value_append, value_append, zero,
      value_zeros, value_ofNat, Int.toNat_of_nonpos part.le, pow_zero]
    omega
  · rw [Numeral.places_point, DigitRun.length_ofChars, List.length_append, List.length_replicate]
    omega
  · have one : ((DigitRun.zero.text.length : ℕ) : ℤ) = 1 := rfl
    have limit : (1 : ℤ) < exponentLimit := by decide
    rw [Numeral.whole, one, Decimal.digits]
    omega

theorem exists_spells (x : Decimal) : ∃ n, Spells n x := by
  by_cases far : plainLimit < x.exponent.natAbs
  · exact ⟨_, spells_scaled far⟩
  have near := Nat.not_lt.1 far
  by_cases whole : 0 ≤ x.exponent
  · exact spells_whole near whole
  have part := Int.not_le.1 whole
  -- The point stands among the digits, or zeros are put between.
  by_cases inside : x.exponent.natAbs < x.digits
  · exact spells_pointed near part inside
  · exact spells_fraction near part (Nat.not_lt.1 inside)

/-! ## Reading what was written -/

theorem toRat_eq_signed (x : Decimal) :
    x.toRat = if x.isNegative then -|x.toRat| else |x.toRat| := by
  have pos : (0 : ℚ) < 10 ^ x.exponent := by positivity
  unfold isNegative
  split
  · next negative =>
    have : x.toRat ≤ 0 := mul_nonpos_of_nonpos_of_nonneg
      (by exact_mod_cast (of_decide_eq_true negative).le) pos.le
    rw [abs_of_nonpos this, neg_neg]
  · next natural =>
    have : 0 ≤ x.mantissa := Int.not_lt.1 (by simpa using natural)
    exact (abs_of_nonneg (mul_nonneg (by exact_mod_cast this) pos.le)).symm

/-- A text tells whether there is a minus in front, and what is behind it. -/
theorem signed_inj {a b : Bool} {m n : Numeral} (h : signed a m.chars = signed b n.chars) :
    a = b ∧ m.chars = n.chars := by
  cases a <;> cases b
  · exact ⟨rfl, h⟩
  · exact absurd (congrArg List.head? h) m.head?_chars
  · exact absurd (congrArg List.head? h.symm) n.head?_chars
  · exact ⟨rfl, (List.cons.inj h).2⟩

namespace Spells

variable {n : Numeral}

theorem read_eq (h : Spells n x) (normal : x.IsNormal) (range : inExponentRange x.exponent = true) :
    read x.text = if x.IsReadable then .ok x else .error (.outOfRange x.text) := by
  have chars : x.text.toList = signed x.isNegative n.chars := by
    rw [text, String.toList_ofList, h.chars]
  rw [read_signed h.spelling chars]
  cases hv : n.value? with
  | none =>
    rw [if_neg]
    intro readable
    have value := Numeral.value?_eq_some_iff.2 ⟨(h.inRange range).2 readable, rfl⟩
    rw [hv] at value
    contradiction
  | some y =>
    obtain ⟨inRange, hy⟩ := Numeral.value?_eq_some_iff.1 hv
    have same : y.toRat = |x.toRat| := (Numeral.toRat_of_value? hv).trans h.toRat
    have isNormal : y.IsNormal := hy ▸ isNormal_normal _ _
    have value : (if x.isNegative then -y else y) = x := by
      have sign := toRat_eq_signed x
      split
      · next negative =>
        rw [if_pos negative] at sign
        exact isNormal.neg.eq_of_toRat_eq normal (by rw [toRat_neg, same, ← sign])
      · next natural =>
        rw [if_neg natural] at sign
        exact isNormal.eq_of_toRat_eq normal (same.trans sign.symm)
    rw [if_pos ((h.inRange range).1 inRange)]
    exact congrArg Except.ok value

end Spells

/-- A decimal in normal form is read back from its text, if the text can be read at all; what cannot
be read is out of range. Different decimals have different texts. -/
theorem read_text :
    (∀ x : Decimal, x.IsNormal → inExponentRange x.exponent = true →
      (x.IsReadable → read x.text = .ok x) ∧
      (¬ x.IsReadable → read x.text = .error (.outOfRange x.text))) ∧
    ∀ x y : Decimal, x.IsNormal → y.IsNormal → x.text = y.text → x = y := by
  refine ⟨fun x normal range => ?_, fun x y hx hy same => ?_⟩
  · obtain ⟨n, spells⟩ := exists_spells x
    rw [spells.read_eq normal range]
    exact ⟨fun readable => if_pos readable, fun off => if_neg off⟩
  · -- A text that is out of range is not read, so the numbers that are spelled are compared.
    obtain ⟨m, left⟩ := exists_spells x
    obtain ⟨n, right⟩ := exists_spells y
    have chars : x.chars = y.chars := String.ofList_injective same
    obtain ⟨sign, spelled⟩ := signed_inj (left.chars.symm.trans (chars.trans right.chars))
    obtain rfl := Numeral.eq_of_chars_eq left.spelling right.spelling spelled
    refine hx.eq_of_toRat_eq hy ?_
    rw [toRat_eq_signed x, toRat_eq_signed y, sign, ← left.toRat, ← right.toRat]

/-- A fraction in plain notation, a large number in the other, and one with the largest exponent,
which cannot be read. -/
theorem read_text_notations :
    read "-0.25" = .ok ⟨-25, -2⟩ ∧ read "3e30" = .ok ⟨3, 30⟩ ∧
    read "1e9223372036854775807" = .error (.outOfRange "1e9223372036854775807") ∧
    normal (-2500) (-4) = ⟨-25, -2⟩ := by
  obtain ⟨reading, injective⟩ := read_text
  have fraction := (reading ⟨-25, -2⟩ (by decide) (by decide)).1 (by decide +kernel)
  have large := (reading ⟨3, 30⟩ (by decide) (by decide)).1 (by decide +kernel)
  have largest := (reading ⟨1, 9223372036854775807⟩ (by decide) (by decide)).2 (by decide +kernel)
  have pointed : (⟨-25, -2⟩ : Decimal).text = "-0.25" := by decide +kernel
  have scaled : (⟨3, 30⟩ : Decimal).text = "3e30" := by decide +kernel
  have limit : (⟨1, 9223372036854775807⟩ : Decimal).text = "1e9223372036854775807" := by
    decide +kernel
  rw [pointed] at fraction
  rw [scaled] at large
  rw [limit] at largest
  exact ⟨fraction, large, largest,
    injective _ _ (isNormal_normal _ _) (by decide) (by decide +kernel)⟩

end Decimal

end ConstLang
