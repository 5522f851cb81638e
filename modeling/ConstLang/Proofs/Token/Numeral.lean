import ConstLang.Proofs.Decimal.Reading
import ConstLang.Proofs.Token.Tiling

/-!
# Sources that are one number

The tokens of a source are one number and the end exactly if its text is the spelling of that
number. Reading the text as a decimal accepts the same texts, so the two readers of numbers agree.
-/

namespace ConstLang

theorem DigitRun.split?_append (run : DigitRun) {rest : List Char}
    (stop : ∀ d ∈ rest.head?, d.isDigit = false) :
    split? (run.text.toList ++ rest) = some (run, rest) := by
  obtain ⟨taken, left⟩ := cut_append (Digits.isDigits_iff.1 run.isDigits).2 stop
  simp only [split?, taken, left, run.isDigits, ↓reduceDIte, String.ofList_toList]

namespace Lexeme

variable {c : Char} {cs : List Char} {n : Numeral}

/-! ## The lexeme of a spelling -/

theorem isAlpha_of_isDigit (digit : c.isDigit = true) : c.isAlpha = false := by
  have behind : ∀ d : Char, '9'.toNat < d.toNat → ¬ c.val ≥ d.val := by
    intro d lt
    have bound := (Char.isDigit_iff_toNat.1 digit).2
    rw [ge_iff_le, UInt32.le_iff_toNat_le]
    exact Nat.not_le.2 (Nat.lt_of_le_of_lt bound lt)
  have upper : c.isUpper = false := decide_eq_false fun within => behind 'A' (by decide) within.1
  have lower : c.isLower = false := Bool.and_eq_false_imp.2 fun within =>
    absurd (of_decide_eq_true within) (behind 'a' (by decide))
  exact Bool.or_eq_false_iff.2 ⟨upper, lower⟩

/-- A digit starts a number and nothing else. -/
theorem class_of_isDigit (digit : c.isDigit = true) :
    isBlank c = false ∧ Mark.ofChar? c = none ∧ startsWord c = false := by
  have other : ∀ d : Char, d.isDigit = false → c ≠ d := by
    rintro d symbol rfl
    rw [symbol] at digit
    contradiction
  refine ⟨?_, ?_, ?_⟩
  · simp [isBlank, other ' ' rfl, other '\t' rfl, other '\r' rfl, other '\n' rfl]
  · have marks : ∀ x ∈ Mark.punctuation, x.1.isDigit = false := by decide
    refine List.lookup_eq_none_iff.2 fun x mem => ?_
    simpa using other x.1 (marks x mem)
  · simp [startsWord, isAlpha_of_isDigit digit, other '_' rfl]

/-- Neither a digit nor a point starts an exponent. -/
theorem head_exponentChars (spelling : n.IsSpelling) :
    ∀ d ∈ n.exponentChars.head?, d.isDigit = false ∧ d ≠ '.' := by
  intro d mem
  unfold Numeral.exponentChars at mem
  cases written : n.exponent with
  | none => simp [written] at mem
  | some e =>
    obtain rfl : e.letter = d := by simpa [written, Exponent.chars] using mem
    rcases spelling e written with same | same <;> rw [same] <;> decide

theorem withExponent_chars (spelling : n.IsSpelling) :
    withExponent n.plain n.exponentChars = .number n := by
  obtain ⟨whole, fraction, exponent⟩ := n
  cases exponent with
  | none => rfl
  | some e =>
    obtain ⟨letter, sign, run⟩ := e
    have letters : letter = 'e' ∨ letter = 'E' := spelling _ rfl
    have signed : Sign.ofChars ((sign.map Sign.symbol).toList ++ run.text.toList) =
        (sign, run.text.toList) := by
      obtain ⟨d, ds, digits, digit⟩ := run.exists_cons
      rw [digits, Sign.ofChars_append sign digit]
    have split : DigitRun.split? (run.text.toList ++ []) = some (run, []) :=
      run.split?_append (by simp)
    rw [List.append_nil] at split
    simp only [Numeral.exponentChars, Option.map_some, Option.getD_some, Exponent.chars,
      Exponent.digits, withExponent, if_pos letters, signed, split, Numeral.plain]

theorem numberAt_chars (spelling : n.IsSpelling) :
    numberAt n.wholeRun (n.fractionChars ++ n.exponentChars) = .number n := by
  have exponent := withExponent_chars spelling
  have stop := head_exponentChars spelling
  rw [Numeral.plain] at exponent
  rw [Numeral.fractionChars, Numeral.fraction]
  cases written : n.fractionRun with
  | none =>
    rw [written] at exponent
    change numberAt _ n.exponentChars = _
    unfold numberAt
    split
    · next same => exact absurd rfl (stop '.' (by rw [same]; rfl)).2
    · exact exponent
  | some run =>
    rw [written] at exponent
    have split := run.split?_append fun d mem => (stop d mem).1
    simp only [Option.map_some, Option.getD_some, List.cons_append, numberAt, split, exponent]

/-- The first lexeme of a spelling is the number. -/
theorem first_of_chars (spelling : n.IsSpelling) (h : n.chars = c :: cs) :
    first c cs = .number n := by
  have chars : n.wholeRun.text.toList ++ (n.fractionChars ++ n.exponentChars) = c :: cs := by
    rw [← h, Numeral.chars_eq, Numeral.chars_plain, List.append_assoc]
    rfl
  have stop : ∀ d ∈ (n.fractionChars ++ n.exponentChars).head?, d.isDigit = false := by
    intro d mem
    unfold Numeral.fractionChars at mem
    cases written : n.fraction with
    | none => exact (head_exponentChars spelling d (by simpa [written] using mem)).1
    | some digits =>
      obtain rfl : '.' = d := by simpa [written] using mem
      rfl
  have split := n.wholeRun.split?_append stop
  rw [chars] at split
  obtain ⟨d, ds, written, digit⟩ := n.exists_cons
  obtain ⟨rfl, rfl⟩ := List.cons.inj (h.symm.trans written)
  obtain ⟨-, mark, word⟩ := class_of_isDigit digit
  simp only [first, mark, word, Bool.false_eq_true, ↓reduceIte, split, numberAt_chars spelling]

theorem spelling_of_withExponent {m : Numeral} {rest : List Char} (plain : m.exponent = none)
    (h : withExponent m rest = .number n) : n.IsSpelling := by
  have bare : m.IsSpelling := by simp [Numeral.IsSpelling, plain]
  unfold withExponent at h
  split at h
  · obtain rfl := Lexeme.number.inj h
    exact bare
  · split at h
    · next letter more e =>
      dsimp only at h
      split at h
      · obtain rfl := Lexeme.number.inj h
        intro f same
        obtain rfl := Option.some.inj same
        exact e
      · contradiction
    · obtain rfl := Lexeme.number.inj h
      exact bare

theorem spelling_of_first (h : first c cs = .number n) : n.IsSpelling := by
  unfold first at h
  split at h
  · contradiction
  · split at h
    · contradiction
    · split at h
      · unfold numberAt at h
        split at h
        · split at h
          · exact spelling_of_withExponent rfl h
          · contradiction
        · exact spelling_of_withExponent rfl h
      · contradiction

end Lexeme

/-- Every token but the end stands in the text. -/
theorem Token.Tiles.stands {s : Source} {p : Position} {cs : List Char} {ts : List Token}
    (h : Tiles p cs ts) (ahead : p.Ahead s cs) {t : Token} (mem : t ∈ ts)
    (inner : t.isEnd = false) : t.Stands s := by
  obtain ⟨parts, last, rfl, -, -, stand⟩ := h.exists_parts ahead
  rw [List.mem_append, List.mem_map, List.mem_singleton] at mem
  obtain ⟨part, mem, rfl⟩ | rfl := mem
  · exact (stand part mem).2.1
  · contradiction

namespace Source

open Decimal

variable {s : Source} {n : Numeral}

/-- The tokens of a source are a number that is all of its text, and the end. -/
def IsNumber (s : Source) (n : Numeral) : Prop :=
  ∃ span stop, s.tokens = [⟨.number n, span⟩, Mark.endOfFile.token stop] ∧ span.text = .ok s.text

theorem isNumber_iff : s.IsNumber n ↔ n.IsSpelling ∧ n.chars = s.text.toList := by
  obtain ⟨d, ds, written, digit⟩ := n.exists_cons
  have blank := (Lexeme.class_of_isDigit digit).1
  constructor
  · rintro ⟨span, stop, tokens, text⟩
    have stands : Token.Stands s ⟨.number n, span⟩ :=
      s.tiles.stands (Position.ahead_start s) (by simp [tokens]) rfl
    have chars : s.text.toList = n.chars := by
      rw [Except.ok.inj (text.symm.trans stands.text.1), Lexeme.text, String.toList_ofList]
      rfl
    rw [Source.tokens, chars, written, Token.ofChars, if_neg (by simp [blank])] at tokens
    have first : Lexeme.first d ds = .number n := congrArg Token.lexeme (List.cons.inj tokens).1
    exact ⟨Lexeme.spelling_of_first first, chars.symm⟩
  · rintro ⟨spelling, chars⟩
    have first := Lexeme.first_of_chars spelling written
    have rest : ds.drop (n.chars.length - 1) = [] := by simp [written]
    have ahead : s.start.Ahead s (n.chars ++ []) := by
      simpa [chars] using Position.ahead_start s
    have stands : (Token.place s.start (.number n)).Stands s :=
      Token.stands_place (l := .number n) (by simp [Lexeme.chars, written]) ahead
    refine ⟨(Token.place s.start (.number n)).span, .single (s.start.after n.chars), ?_, ?_⟩
    · rw [Source.tokens, ← chars, written, Token.ofChars, if_neg (by simp [blank])]
      simp only [first, Lexeme.chars, rest, Token.ofChars, ← written]
      rfl
    · rw [stands.text.1]
      change Except.ok (String.ofList n.chars) = _
      rw [chars, String.ofList_toList]

/-- The tokens of a text without a minus in front are one number exactly if the text can be read as
a decimal, its exponent aside; the value of the number is the decimal that is read. A minus in front
negates it. -/
theorem readers_agree (plain : s.text.toList.head? ≠ some '-') :
    ((∃ n, s.IsNumber n) ↔ ¬ ∃ t, read s.text = .error (.invalid t)) ∧
    (∀ n, s.IsNumber n → (∀ x, n.value? = some x ↔ read s.text = .ok x) ∧
      (n.value? = none ↔ ∃ t, read s.text = .error (.outOfRange t))) ∧
    (∀ x, read ("-" ++ s.text) = .ok (-x) ↔ read s.text = .ok x) ∧
    ((∃ t, read ("-" ++ s.text) = .error (.invalid t)) ↔
      ∃ t, read s.text = .error (.invalid t)) ∧
    ((∃ t, read ("-" ++ s.text) = .error (.outOfRange t)) ↔
      ∃ t, read s.text = .error (.outOfRange t)) := by
  have bare : s.text.toList = signed false s.text.toList := rfl
  refine ⟨?_, fun n number => ?_, ?_⟩
  · rw [read_invalid_iff bare fun _ => plain, not_not]
    exact exists_congr fun n => isNumber_iff
  · obtain ⟨spelling, chars⟩ := isNumber_iff.1 number
    rw [read_signed spelling (bare.trans (congrArg (signed false) chars.symm))]
    cases n.value? <;> simp
  · rw [read_minus plain]
    cases read s.text with
    | ok x => simp
    | error e => cases e <;> simp

/-- A number with a fraction and an exponent. -/
def scaled : Source := ⟨0, "", "12.50e-3"⟩

theorem readers_agree_scaled :
    scaled.text.toList.head? ≠ some '-' ∧
    (∃ n, scaled.IsNumber n ∧ n.value? = some ⟨125, -4⟩) ∧
    read ("-" ++ scaled.text) = .ok ⟨-125, -4⟩ := by
  have plain : scaled.text.toList.head? ≠ some '-' := by decide +kernel
  have value : read scaled.text = .ok ⟨125, -4⟩ := by decide +kernel
  obtain ⟨number, agree, minus, -⟩ := readers_agree plain
  obtain ⟨n, isNumber⟩ := number.2 (by simp [value])
  exact ⟨plain, ⟨n, isNumber, ((agree n isNumber).1 _).2 value⟩, (minus _).2 value⟩

end Source

end ConstLang
