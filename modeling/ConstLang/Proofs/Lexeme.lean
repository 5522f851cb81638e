import ConstLang.Lexeme
import ConstLang.Proofs.Numeral
import Mathlib.Data.List.TakeWhile

/-!
# What the first lexeme takes

The first lexeme of a text is a beginning of it and holds at least one character. A flawed lexeme is
a character that starts no lexeme, or a beginning of a number that stops where no number ends.
-/

namespace ConstLang

/-- Characters of one kind are cut off in front of one that is not of the kind. -/
theorem cut_append {p : Char → Bool} {cs rest : List Char} (all : ∀ c ∈ cs, p c = true)
    (stop : ∀ d ∈ rest.head?, p d = false) :
    (cs ++ rest).takeWhile p = cs ∧ (cs ++ rest).dropWhile p = rest := by
  rw [List.takeWhile_append_of_pos all, List.dropWhile_append_of_pos all]
  cases rest with
  | nil => simp
  | cons d ds => simp [stop d rfl]

namespace DigitRun

variable {cs rest : List Char} {run : DigitRun}

theorem split?_eq_some (h : split? cs = some (run, rest)) :
    run.text.toList = cs.takeWhile Char.isDigit ∧ rest = cs.dropWhile Char.isDigit := by
  unfold split? at h
  dsimp only at h
  split at h
  · simp only [Option.some.injEq, Prod.mk.injEq] at h
    obtain ⟨rfl, rfl⟩ := h
    exact ⟨String.toList_ofList, rfl⟩
  · cases h

theorem append_of_split? (h : split? cs = some (run, rest)) : cs = run.text.toList ++ rest := by
  obtain ⟨taken, rfl⟩ := split?_eq_some h
  rw [taken, List.takeWhile_append_dropWhile]

/-- There are digits to split off exactly where a digit stands first. -/
theorem split?_eq_none_iff : split? cs = none ↔ cs.takeWhile Char.isDigit = [] := by
  have all : ∀ c ∈ cs.takeWhile Char.isDigit, c.isDigit = true := fun c mem =>
    List.mem_takeWhile_imp mem
  unfold split?
  simp only [dite_eq_right_iff, reduceCtorEq, imp_false, Digits.isDigits_iff, not_and]
  exact ⟨fun h => by_contra fun nonempty => h nonempty all, fun h nonempty => absurd h nonempty⟩

/-- A run of digits starts with one. -/
theorem exists_cons (run : DigitRun) :
    ∃ d ds, run.text.toList = d :: ds ∧ d.isDigit = true := by
  obtain ⟨nonempty, digits⟩ := Digits.isDigits_iff.1 run.isDigits
  obtain ⟨d, ds, written⟩ := List.exists_cons_of_ne_nil nonempty
  exact ⟨d, ds, written, digits d (by simp [written])⟩

/-- A run of digits ends with one. -/
theorem exists_getLast? (run : DigitRun) :
    ∃ d, run.text.toList.getLast? = some d ∧ d.isDigit = true := by
  obtain ⟨nonempty, digits⟩ := Digits.isDigits_iff.1 run.isDigits
  exact ⟨_, List.getLast?_eq_some_getLast nonempty, digits _ (List.getLast_mem nonempty)⟩

/-- Digits as a run. -/
def ofChars (cs : List Char) (digits : Digits.isDigits cs = true) : DigitRun :=
  ⟨String.ofList cs, Digits.isDigits_ofList digits⟩

@[simp] theorem toList_ofChars (digits : Digits.isDigits cs = true) :
    (ofChars cs digits).text.toList = cs := String.toList_ofList

@[simp] theorem length_ofChars (digits : Digits.isDigits cs = true) :
    (ofChars cs digits).text.length = cs.length := String.length_ofList

/-- A run of one digit. -/
def zero : DigitRun := ⟨"0", by decide⟩

end DigitRun

theorem Sign.append_of_ofChars {cs rest : List Char} {sign : Option Sign}
    (h : Sign.ofChars cs = (sign, rest)) : cs = (sign.map Sign.symbol).toList ++ rest := by
  unfold Sign.ofChars at h
  split at h <;> cases h <;> rfl

namespace Numeral

/-- The exponent, if there is one, is written with the letter `e` in either case. -/
def IsSpelling (n : Numeral) : Prop := ∀ e ∈ n.exponent, e.letter = 'e' ∨ e.letter = 'E'

@[simp] theorem chars_run (whole : DigitRun) :
    (⟨whole, none, none⟩ : Numeral).chars = whole.text.toList := by
  simp [chars, Numeral.whole, fraction]

@[simp] theorem chars_point (whole fraction : DigitRun) :
    (⟨whole, some fraction, none⟩ : Numeral).chars =
      whole.text.toList ++ '.' :: fraction.text.toList := by
  simp [chars, Numeral.whole, Numeral.fraction]

/-- A number starts with a digit. -/
theorem exists_cons (n : Numeral) : ∃ d ds, n.chars = d :: ds ∧ d.isDigit = true := by
  obtain ⟨d, ds, written, digit⟩ := n.wholeRun.exists_cons
  exact ⟨d, _, by rw [chars, whole, written]; rfl, digit⟩

/-- A number ends with a digit. -/
theorem exists_getLast? (n : Numeral) : ∃ d, n.chars.getLast? = some d ∧ d.isDigit = true := by
  unfold chars fraction
  cases n.exponent with
  | some e =>
    obtain ⟨d, last, digit⟩ := e.run.exists_getLast?
    exact ⟨d, by simp [Exponent.chars, Exponent.digits, last, List.getLast?_cons], digit⟩
  | none =>
    cases n.fractionRun with
    | some run =>
      obtain ⟨d, last, digit⟩ := run.exists_getLast?
      exact ⟨d, by simp [last, List.getLast?_cons], digit⟩
    | none =>
      obtain ⟨d, last, digit⟩ := n.wholeRun.exists_getLast?
      exact ⟨d, by simp [whole, last], digit⟩

end Numeral

namespace Lexeme

/-- Characters that a number can start with, and that are none. -/
def Malformed (cs : List Char) : Prop :=
  (∃ n : Numeral, n.IsSpelling ∧ cs <+: n.chars) ∧ ∀ n : Numeral, n.chars ≠ cs

/-- A character that starts no lexeme and separates none. -/
def Stray (c : Char) : Prop :=
  isBlank c = false ∧ Mark.ofChar? c = none ∧ startsWord c = false ∧ c.isDigit = false

/-- Characters are what the flaw says of them. -/
def HasFlaw (cs : List Char) : Flaw → Prop
  | .strayCharacter => ∃ c, cs = [c] ∧ Stray c
  | .noFractionDigits | .noExponentDigits => Malformed cs

/-- What an `unknown` lexeme says of its characters holds. -/
def Honest : Lexeme → Prop
  | unknown text flaw => HasFlaw text.toList flaw
  | _ => True

variable {c : Char} {cs rest : List Char}

/-- A beginning of a number that does not end with a digit is no number. -/
theorem malformed_of_prefix {n : Numeral} (spelling : n.IsSpelling) (start : cs <+: n.chars)
    (last : ∀ d ∈ cs.getLast?, d.isDigit = false) : Malformed cs := by
  refine ⟨⟨n, spelling, start⟩, fun m same => ?_⟩
  obtain ⟨d, ends, digit⟩ := m.exists_getLast?
  rw [same] at ends
  rw [last d ends] at digit
  cases digit

/-- A lexeme consists of `start` and of characters that `rest` begins with, and says of them what
holds. -/
def Reads (l : Lexeme) (start rest : List Char) : Prop :=
  (∃ taken more, l.chars = start ++ taken ∧ rest = taken ++ more) ∧ l.Honest

/-! ## Numbers -/

theorem Numeral.chars_withExponent {n : Numeral} (plain : n.exponent = none) (e : Exponent) :
    ({ n with exponent := some e } : Numeral).chars = n.chars ++ e.chars := by
  simp [Numeral.chars, Numeral.whole, Numeral.fraction, plain]

theorem reads_withExponent {n : Numeral} (plain : n.exponent = none) (rest : List Char) :
    (withExponent n rest).Reads n.chars rest := by
  unfold withExponent
  split
  · exact ⟨⟨[], [], by simp [chars], rfl⟩, trivial⟩
  · next letter more =>
    split
    · next e =>
      rcases signed : Sign.ofChars more with ⟨sign, behind⟩
      obtain rfl := Sign.append_of_ofChars signed
      dsimp only
      split
      · next digits after split =>
        obtain rfl := DigitRun.append_of_split? split
        refine ⟨⟨(Exponent.mk letter sign digits).chars, after, ?_, ?_⟩, trivial⟩
        · rw [chars, Numeral.chars_withExponent plain]
        · simp [Exponent.chars, Exponent.digits]
      · refine ⟨⟨letter :: (sign.map Sign.symbol).toList, behind, by simp [chars], rfl⟩, ?_⟩
        rw [Honest, String.toList_ofList]
        let number : Numeral := { n with exponent := some ⟨letter, sign, .zero⟩ }
        have spelling : number.IsSpelling := fun f same => Option.some.inj same ▸ e
        refine malformed_of_prefix spelling ⟨['0'], ?_⟩ ?_
        · rw [Numeral.chars_withExponent plain]
          simp [Exponent.chars, Exponent.digits, DigitRun.zero]
        · cases sign with
          | none => rcases e with rfl | rfl <;> simp +decide
          | some s => cases s <;> simp +decide [Sign.symbol]
    · exact ⟨⟨[], letter :: more, by simp [chars], rfl⟩, trivial⟩

theorem reads_numberAt (whole : DigitRun) (rest : List Char) :
    (numberAt whole rest).Reads whole.text.toList rest := by
  unfold numberAt
  split
  · next more =>
    split
    · next fraction behind split =>
      obtain ⟨⟨taken, after, same, rfl⟩, honest⟩ :=
        reads_withExponent (n := ⟨whole, some fraction, none⟩) rfl behind
      refine ⟨⟨'.' :: (fraction.text.toList ++ taken), after, ?_, ?_⟩, honest⟩
      · rw [same]
        simp
      · rw [DigitRun.append_of_split? split]
        simp
    · refine ⟨⟨['.'], more, by simp [chars], rfl⟩, ?_⟩
      let number : Numeral := ⟨whole, some .zero, none⟩
      have spelling : number.IsSpelling := fun _ same => by cases same
      refine malformed_of_prefix spelling ⟨['0'], ?_⟩ ?_
      · simp [number, DigitRun.zero]
      · simp +decide
  · simpa using reads_withExponent (n := ⟨whole, none, none⟩) rfl rest

/-! ## The first lexeme -/

theorem chars_of_ofChar? {m : Mark} (h : Mark.ofChar? c = some m) : m.chars = [c] := by
  obtain ⟨before, after, split, -⟩ := List.lookup_eq_some_iff.1 h
  have mem : (c, m) ∈ Mark.punctuation := by simp [split]
  have written : ∀ x ∈ Mark.punctuation, x.2.chars = [x.1] := by decide
  exact written _ mem

theorem reads_first (blank : isBlank c = false) (cs : List Char) : (first c cs).Reads [c] cs := by
  unfold first
  split
  · next m mark => exact ⟨⟨[], cs, by simp [chars, chars_of_ofChar? mark], rfl⟩, trivial⟩
  · next mark =>
    split
    · refine ⟨⟨cs.takeWhile continuesWord, cs.dropWhile continuesWord, by simp [chars], ?_⟩,
        trivial⟩
      exact List.takeWhile_append_dropWhile.symm
    · next word =>
      split
      · next whole rest split =>
        obtain ⟨⟨taken, more, same, rfl⟩, honest⟩ := reads_numberAt whole rest
        refine ⟨?_, honest⟩
        have digits := DigitRun.append_of_split? split
        cases written : whole.text.toList with
        | nil => exact absurd whole.isDigits (by simp [written, Digits.isDigits])
        | cons d ds =>
          rw [written] at digits same
          obtain ⟨rfl, rfl⟩ := List.cons.inj digits
          exact ⟨ds ++ taken, more, same, by simp⟩
      · next none =>
        refine ⟨⟨[], cs, by simp [chars], rfl⟩, c, by simp, blank, mark, by simpa using word, ?_⟩
        simpa using DigitRun.split?_eq_none_iff.1 none

end Lexeme

end ConstLang
