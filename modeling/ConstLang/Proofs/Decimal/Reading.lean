import ConstLang.Proofs.Lexeme

/-!
# Texts that are read as decimals

A text is read as a decimal if it is the spelling of a number, perhaps with a minus in front. The
reader cuts a text at the first letter `e` and at the first point, and checks the pieces afterwards;
`parts?_eq_some_iff` says that it finds pieces exactly in spellings, and the pieces of the number
that is spelled. What is read is then the value of that number.
-/

namespace ConstLang

open Digits

/-! ## Splitting -/

/-- A sign is read off characters that do not start with another one. -/
theorem Sign.ofChars_of_head (sign : Option Sign) {cs : List Char}
    (unsigned : ∀ d ∈ cs.head?, d ≠ '+' ∧ d ≠ '-') :
    Sign.ofChars ((sign.map Sign.symbol).toList ++ cs) = (sign, cs) := by
  cases sign with
  | none =>
    change Sign.ofChars cs = _
    unfold Sign.ofChars
    split
    · exact absurd rfl (unsigned '+' rfl).1
    · exact absurd rfl (unsigned '-' rfl).2
    · rfl
  | some sign => cases sign <;> rfl

theorem Sign.ofChars_append (sign : Option Sign) {c : Char} {cs : List Char}
    (digit : c.isDigit = true) :
    Sign.ofChars ((sign.map Sign.symbol).toList ++ c :: cs) = (sign, c :: cs) := by
  refine ofChars_of_head sign ?_
  rintro d ⟨rfl⟩
  constructor <;> rintro rfl <;> contradiction

namespace Decimal

theorem splitAtFirst_of_forall {p : Char → Bool} {cs : List Char} (h : ∀ c ∈ cs, p c = false) :
    splitAtFirst p cs = (cs, none) := by
  have all : ∀ c ∈ cs, (!p c) = true := by simpa using h
  rw [splitAtFirst, List.takeWhile_eq_self_iff.2 all, List.dropWhile_eq_nil_iff.2 all]
  rfl

theorem splitAtFirst_append {p : Char → Bool} {cs : List Char} {c : Char}
    (h : ∀ c ∈ cs, p c = false) (hc : p c = true) (ds : List Char) :
    splitAtFirst p (cs ++ c :: ds) = (cs, some ds) := by
  have all : ∀ c ∈ cs, (!p c) = true := by simpa using h
  have stop : ∀ d ∈ (c :: ds).head?, (!p d) = false := by simp [hc]
  obtain ⟨taken, left⟩ := cut_append all stop
  rw [splitAtFirst, taken, left]
  rfl

/-- The parts of a split are put together again with the character between them. -/
theorem splitAtFirst_cases (p : Char → Bool) (cs : List Char) :
    splitAtFirst p cs = (cs, none) ∨
      ∃ before c after, p c = true ∧ cs = before ++ c :: after ∧
        splitAtFirst p cs = (before, some after) := by
  have joined := List.takeWhile_append_dropWhile (p := fun c => !p c) (l := cs)
  cases rest : cs.dropWhile (fun c => !p c) with
  | nil =>
    rw [rest, List.append_nil] at joined
    exact .inl (by rw [splitAtFirst, rest, joined]; rfl)
  | cons c after =>
    have stop := List.head_dropWhile_not (fun c => !p c) (l := cs) (by simp [rest])
    rw [rest] at joined
    refine .inr ⟨cs.takeWhile fun c => !p c, c, after, ?_, joined.symm, ?_⟩
    · simpa [rest] using stop
    · rw [splitAtFirst, rest]
      rfl

/-- An exponent has the sign that a lexeme finds there. -/
theorem exponentParts_eq (cs : List Char) :
    exponentParts cs = (decide ((Sign.ofChars cs).1 = some .minus), (Sign.ofChars cs).2) := by
  unfold exponentParts Sign.ofChars
  split <;> first | rfl | simp_all

theorem exponentParts_chars (e : Exponent) :
    exponentParts ((e.sign.map Sign.symbol).toList ++ e.digits.toList) =
      (e.isNegative, e.digits.toList) := by
  obtain ⟨c, cs, written, digit⟩ := e.run.exists_cons
  rw [exponentParts_eq, Exponent.digits, written, Sign.ofChars_append e.sign digit]
  rfl

end Decimal

/-! ## The pieces of a number -/

namespace Numeral

/-- The number without its exponent. -/
def plain (n : Numeral) : Numeral := { n with exponent := none }

/-- The pieces of a number as they are read. -/
def parts (n : Numeral) : String × String × Option (Bool × String) :=
  (n.whole, n.fraction.getD "", n.exponent.map fun e => (e.isNegative, e.digits))

/-- The characters of the fraction, with its point. -/
def fractionChars (n : Numeral) : List Char :=
  (n.fraction.map fun digits => '.' :: digits.toList).getD []

/-- The characters of the exponent, with its letter. -/
def exponentChars (n : Numeral) : List Char := (n.exponent.map Exponent.chars).getD []

theorem chars_plain (n : Numeral) : n.plain.chars = n.whole.toList ++ n.fractionChars := by
  simp [chars, plain, whole, fraction, fractionChars]

theorem chars_eq (n : Numeral) : n.chars = n.plain.chars ++ n.exponentChars := by
  rw [chars_plain]
  rfl

/-- The characters of a number have no minus in front. -/
theorem head?_chars (n : Numeral) : n.chars.head? ≠ some '-' := by
  obtain ⟨d, ds, written, digit⟩ := n.exists_cons
  rw [written]
  rintro ⟨⟩
  contradiction

theorem isDigit_of_mem_fraction {n : Numeral} {digits : String} (h : n.fraction = some digits) :
    isDigits digits.toList = true := by
  obtain ⟨run, -, rfl⟩ := Option.map_eq_some_iff.1 h
  exact run.isDigits

/-- Before the exponent there are digits and points only. -/
theorem of_mem_plain {n : Numeral} {c : Char} (h : c ∈ n.plain.chars) :
    c.isDigit = true ∨ c = '.' := by
  rw [chars_plain, fractionChars] at h
  rcases List.mem_append.1 h with mem | mem
  · exact .inl ((isDigits_iff.1 n.wholeRun.isDigits).2 c mem)
  · cases written : n.fraction with
    | none => simp [written] at mem
    | some digits =>
      have run := (isDigits_iff.1 (isDigit_of_mem_fraction written)).2 c
      rw [written, Option.map_some, Option.getD_some, List.mem_cons] at mem
      exact mem.symm.imp_left run

end Numeral

namespace Decimal

theorem splitAtFirst_point (n : Numeral) :
    splitAtFirst (· = '.') n.plain.chars = (n.whole.toList, n.fraction.map String.toList) := by
  have whole : ∀ c ∈ n.whole.toList, decide (c = '.') = false := by
    intro c mem
    have digit := (isDigits_iff.1 n.wholeRun.isDigits).2 c mem
    exact decide_eq_false (by rintro rfl; contradiction)
  rw [Numeral.chars_plain, Numeral.fractionChars]
  cases n.fraction with
  | none => simpa using splitAtFirst_of_forall whole
  | some digits => exact splitAtFirst_append whole (by decide) _

theorem splitAtFirst_letter {n : Numeral} (spelling : n.IsSpelling) :
    splitAtFirst (fun c => c = 'e' || c = 'E') n.chars =
      (n.plain.chars, n.exponent.map fun e =>
        (e.sign.map Sign.symbol).toList ++ e.digits.toList) := by
  have before : ∀ c ∈ n.plain.chars, (decide (c = 'e') || decide (c = 'E')) = false := by
    intro c mem
    rcases Numeral.of_mem_plain mem with digit | rfl
    · have lower : c ≠ 'e' := by rintro rfl; contradiction
      have upper : c ≠ 'E' := by rintro rfl; contradiction
      simp [lower, upper]
    · decide
  rw [Numeral.chars_eq, Numeral.exponentChars]
  cases written : n.exponent with
  | none => simpa using splitAtFirst_of_forall before
  | some e => exact splitAtFirst_append before (by simpa using spelling e written) _

/-- The pieces that are found, and what is checked of them. -/
theorem parts?_eq_some_iff_split {cs : List Char} {p : String × String × Option (Bool × String)} :
    parts? cs = some p ↔ ∃ number exponent whole fraction,
      splitAtFirst (fun c => c = 'e' || c = 'E') cs = (number, exponent) ∧
      splitAtFirst (· = '.') number = (whole, fraction) ∧
      (isDigits whole = true ∧ ∀ digits ∈ fraction, isDigits digits = true) ∧
      (∀ e ∈ exponent, isDigits (exponentParts e).2 = true) ∧
      (String.ofList whole, String.ofList (fraction.getD []),
        exponent.map fun e => ((exponentParts e).1, String.ofList (exponentParts e).2)) = p := by
  have all {α : Type} (test : α → Bool) (piece : Option α) :
      (piece.map test).getD true = true ↔ ∀ a ∈ piece, test a = true := by
    cases piece <;> simp
  unfold parts?
  rcases splitAtFirst (fun c => c = 'e' || c = 'E') cs with ⟨number, exponent⟩
  rcases point : splitAtFirst (· = '.') number with ⟨whole, fraction⟩
  simp only [point, Option.bind_eq_bind, Option.bind_eq_some_iff, Option.guard_eq_some',
    Bool.and_eq_true, Option.map_map, all, exists_const, Function.comp_def]
  constructor
  · rintro ⟨digits, exponents, h⟩
    exact ⟨_, _, _, _, rfl, point, digits, exponents, Option.some.inj h⟩
  · rintro ⟨_, _, _, _, same, h, digits, exponents, rfl⟩
    obtain ⟨rfl, rfl⟩ := Prod.mk.inj same
    obtain ⟨rfl, rfl⟩ := Prod.mk.inj (point.symm.trans h)
    exact ⟨digits, exponents, rfl⟩

/-- A spelling has the pieces of its number. -/
theorem parts?_chars {n : Numeral} (spelling : n.IsSpelling) :
    parts? n.chars = some n.parts := by
  refine parts?_eq_some_iff_split.2 ⟨_, _, _, _, splitAtFirst_letter spelling,
    splitAtFirst_point n, ⟨n.wholeRun.isDigits, fun digits mem => ?_⟩, fun e mem => ?_, ?_⟩
  · obtain ⟨run, written, rfl⟩ := Option.map_eq_some_iff.1 mem
    exact Numeral.isDigit_of_mem_fraction written
  · obtain ⟨f, -, rfl⟩ := Option.map_eq_some_iff.1 mem
    rw [exponentParts_chars]
    exact f.run.isDigits
  · rw [Option.map_map]
    simp only [Function.comp_def, exponentParts_chars, String.ofList_toList, Numeral.parts]
    cases n.fraction <;> simp

/-- The pieces before the exponent are those of a number. -/
theorem exists_plain {cs whole : List Char} {fraction : Option (List Char)}
    (split : splitAtFirst (· = '.') cs = (whole, fraction))
    (digits : isDigits whole = true ∧ ∀ digits ∈ fraction, isDigits digits = true) :
    ∃ n : Numeral, n.exponent = none ∧ n.chars = cs ∧ n.whole = String.ofList whole ∧
      n.fraction.getD "" = String.ofList (fraction.getD []) := by
  rcases splitAtFirst_cases (· = '.') cs with pointless | ⟨before, c, after, hc, rfl, pointed⟩
  · obtain ⟨rfl, rfl⟩ := Prod.mk.inj (split.symm.trans pointless)
    exact ⟨⟨.ofChars whole digits.1, none, none⟩, rfl, by simp, rfl, rfl⟩
  · obtain ⟨rfl, rfl⟩ := Prod.mk.inj (split.symm.trans pointed)
    obtain rfl := of_decide_eq_true hc
    exact ⟨⟨.ofChars whole digits.1, some (.ofChars after (digits.2 after rfl)), none⟩, rfl,
      by simp, rfl, rfl⟩

/-- The pieces of an exponent are those of one. -/
theorem exists_exponent (letter : Char) {cs : List Char}
    (digits : isDigits (exponentParts cs).2 = true) :
    ∃ e : Exponent, e.letter = letter ∧ e.chars = letter :: cs ∧
      (e.isNegative, e.digits) = ((exponentParts cs).1, String.ofList (exponentParts cs).2) := by
  rcases signed : Sign.ofChars cs with ⟨sign, rest⟩
  rw [exponentParts_eq, signed] at digits ⊢
  obtain rfl := Sign.append_of_ofChars signed
  exact ⟨⟨letter, sign, .ofChars rest digits⟩, rfl,
    by simp [Exponent.chars, Exponent.digits, DigitRun.ofChars], rfl⟩

/-- What has pieces is the spelling of a number, and they are those of the number. -/
theorem exists_of_parts? {cs : List Char} {p : String × String × Option (Bool × String)}
    (h : parts? cs = some p) : ∃ n : Numeral, n.IsSpelling ∧ n.chars = cs ∧ n.parts = p := by
  obtain ⟨number, exponent, whole, fraction, letter, point, digits, exponents, rfl⟩ :=
    parts?_eq_some_iff_split.1 h
  obtain ⟨n, plain, rfl, hw, hf⟩ := exists_plain point digits
  rcases splitAtFirst_cases (fun c => c = 'e' || c = 'E') cs with
    bare | ⟨before, c, after, hc, rfl, scaled⟩
  · obtain ⟨rfl, rfl⟩ := Prod.mk.inj (bare.symm.trans letter)
    exact ⟨n, by simp [Numeral.IsSpelling, plain], rfl, by simp [Numeral.parts, plain, hw, hf]⟩
  · obtain ⟨rfl, rfl⟩ := Prod.mk.inj (scaled.symm.trans letter)
    obtain ⟨e, rfl, written, pieces⟩ := exists_exponent c (exponents after rfl)
    refine ⟨{ n with exponent := some e }, fun f mem => ?_, ?_, ?_⟩
    · obtain rfl := Option.some.inj mem
      simpa using hc
    · rw [Lexeme.Numeral.chars_withExponent plain, written]
    · simpa [Numeral.parts, Numeral.whole, Numeral.fraction, pieces] using ⟨hw, hf⟩

theorem parts?_eq_some_iff {cs : List Char} {p : String × String × Option (Bool × String)} :
    parts? cs = some p ↔ ∃ n : Numeral, n.IsSpelling ∧ n.chars = cs ∧ n.parts = p := by
  refine ⟨exists_of_parts?, ?_⟩
  rintro ⟨n, spelling, rfl, rfl⟩
  exact parts?_chars spelling

/-! ## Reading -/

/-- Characters with a minus in front if they are those of a negative number. -/
def signed (negative : Bool) (cs : List Char) : List Char := if negative then '-' :: cs else cs

theorem read_eq {text : String} {negative : Bool} {body : List Char}
    (h : text.toList = signed negative body) (plain : negative = false → body.head? ≠ some '-') :
    read text = match parts? body with
      | none => .error (.invalid text)
      | some (whole, fraction, exponent) =>
        match ofDigits whole fraction exponent with
        | none => .error (.outOfRange text)
        | some x => .ok (if negative then -x else x) := by
  unfold read
  rw [h]
  cases negative with
  | true => rfl
  | false =>
    unfold signed
    split
    next sign rest same =>
    split at same
    · next minus => exact absurd (congrArg List.head? minus) (plain rfl)
    · obtain ⟨rfl, rfl⟩ := Prod.mk.inj same
      rfl

/-- A spelling is read as the value of its number, if the exponent is in range. -/
theorem read_signed {n : Numeral} (spelling : n.IsSpelling) {negative : Bool} {text : String}
    (h : text.toList = signed negative n.chars) :
    read text = match n.value? with
      | none => .error (.outOfRange text)
      | some x => .ok (if negative then -x else x) := by
  rw [read_eq h fun _ => n.head?_chars, parts?_chars spelling]
  rfl

/-- A text that is no spelling is invalid. -/
theorem read_invalid_iff {text : String} {negative : Bool} {body : List Char}
    (h : text.toList = signed negative body) (plain : negative = false → body.head? ≠ some '-') :
    (∃ t, read text = .error (.invalid t)) ↔ ¬ ∃ n : Numeral, n.IsSpelling ∧ n.chars = body := by
  constructor
  · rintro ⟨t, invalid⟩ ⟨n, spelling, rfl⟩
    rw [read_signed spelling h] at invalid
    cases hx : n.value? <;> simp [hx] at invalid
  · intro other
    cases pieces : parts? body with
    | none => exact ⟨text, by rw [read_eq h plain, pieces]⟩
    | some p =>
      obtain ⟨n, spelling, same, -⟩ := parts?_eq_some_iff.1 pieces
      exact absurd ⟨n, spelling, same⟩ other

/-- A minus in front negates what is read, and changes no kind of error. -/
theorem read_minus {text : String} (plain : text.toList.head? ≠ some '-') :
    read ("-" ++ text) = match read text with
      | .error (.invalid _) => .error (.invalid ("-" ++ text))
      | .error (.outOfRange _) => .error (.outOfRange ("-" ++ text))
      | .ok x => .ok (-x) := by
  have bare : text.toList = signed false text.toList := rfl
  have minus : ("-" ++ text).toList = signed true text.toList := by simp [signed]
  rw [read_eq minus nofun, read_eq bare fun _ => plain]
  cases parts? text.toList with
  | none => rfl
  | some p =>
    obtain ⟨whole, fraction, exponent⟩ := p
    cases made : ofDigits whole fraction exponent with
    | none => simp only [made]
    | some x => simp only [made]; rfl

end Decimal

end ConstLang
