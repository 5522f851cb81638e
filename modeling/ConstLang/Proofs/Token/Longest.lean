import ConstLang.Proofs.Token.Reread

/-!
# Lexemes are as long as they can be

A word takes all characters that a word can go on with. A number takes as many characters as any
spelling of a number starts with, be it a number in the end or not. What a spelling can go on with
depends on its phase: a reader that stops where the phase allows nothing more has taken the longest
beginning.
-/

namespace ConstLang

/-- `run` is the longest beginning of `text` with a property. -/
structure Longest (P : List Char → Prop) (text run : List Char) : Prop where
  start : run <+: text
  holds : P run
  longest : ∀ other, other <+: text → P other → other.length ≤ run.length

/-- A beginning that its next character spoils is the longest one. -/
theorem Longest.of_stop {P : List Char → Prop} {run more : List Char}
    (closed : ∀ start rest, P (start ++ rest) → P start) (holds : P run)
    (stop : ∀ d ∈ more.head?, ¬ P (run ++ [d])) : Longest P (run ++ more) run := by
  refine ⟨List.prefix_append _ _, holds, fun other start fits => ?_⟩
  by_contra longer
  obtain ⟨rest, rfl⟩ := List.prefix_of_prefix_length_le (List.prefix_append run more) start
    (by omega)
  obtain ⟨d, ds, rfl⟩ := List.exists_cons_of_ne_nil
    (show rest ≠ [] by rintro rfl; simp at longer)
  obtain ⟨left, rfl⟩ := (List.prefix_append_right_inj run).1 start
  refine stop d rfl (closed _ ds ?_)
  rwa [List.append_assoc]

/-! ## The phases of a spelling -/

namespace Numeral

/-- A spelling of a number starts with these characters. -/
def Viable (cs : List Char) : Prop := ∃ n : Numeral, n.IsSpelling ∧ cs <+: n.chars

theorem Viable.of_append (start rest : List Char) (h : Viable (start ++ rest)) : Viable start := by
  obtain ⟨n, spelling, written⟩ := h
  exact ⟨n, spelling, (List.prefix_append _ _).trans written⟩

/-- What was read last of a spelling. -/
inductive Phase
  | start | whole | point | fraction | letter | sign | exponent

namespace Phase

/-- Digits are read in every phase, and go on until the phase ends. -/
def afterDigit : Phase → Phase
  | start | whole => whole
  | point | fraction => fraction
  | letter | sign | exponent => exponent

def afterSign : Option Sign → Phase
  | none => letter
  | some _ => sign

/-- The phase behind one more character, if a spelling can go on with it. -/
def next? (p : Phase) (c : Char) : Option Phase :=
  if c.isDigit then some p.afterDigit
  else match p with
    | whole => if c = '.' then some point else if c = 'e' ∨ c = 'E' then some letter else none
    | fraction => if c = 'e' ∨ c = 'E' then some letter else none
    | letter => if c = '+' ∨ c = '-' then some sign else none
    | start | point | sign | exponent => none

def run? (p : Phase) (cs : List Char) : Option Phase := cs.foldlM next? p

variable {p q : Phase} {c : Char} {cs ds : List Char}

@[simp] theorem run?_nil (p : Phase) : p.run? [] = some p := rfl

theorem run?_cons (p : Phase) (c : Char) (cs : List Char) :
    p.run? (c :: cs) = (p.next? c).bind fun q => q.run? cs := List.foldlM_cons

theorem run?_append (p : Phase) (cs ds : List Char) :
    p.run? (cs ++ ds) = (p.run? cs).bind fun q => q.run? ds := List.foldlM_append

theorem run?_append_of_eq (h : p.run? cs = some q) : p.run? (cs ++ ds) = q.run? ds := by
  rw [run?_append, h, Option.bind_some]

theorem next?_of_isDigit (p : Phase) (digit : c.isDigit = true) : p.next? c = some p.afterDigit :=
  if_pos digit

/-- Behind a digit, more digits leave the phase as it is. -/
theorem run?_digits (p : Phase) (digits : ∀ c ∈ cs, c.isDigit = true) :
    p.afterDigit.run? cs = some p.afterDigit := by
  have again : p.afterDigit.afterDigit = p.afterDigit := by cases p <;> rfl
  induction cs with
  | nil => rfl
  | cons c cs ih =>
    obtain ⟨digit, digits⟩ := List.forall_mem_cons.1 digits
    rw [run?_cons, next?_of_isDigit _ digit, again]
    exact ih digits

theorem run?_run (p : Phase) (run : DigitRun) : p.run? run.text.toList = some p.afterDigit := by
  obtain ⟨-, digits⟩ := Digits.isDigits_iff.1 run.isDigits
  obtain ⟨d, ds, written, digit⟩ := run.exists_cons
  rw [written] at digits ⊢
  rw [run?_cons, next?_of_isDigit p digit]
  exact p.run?_digits (List.forall_mem_cons.1 digits).2

/-- An exponent may follow. -/
def Ends (p : Phase) : Prop := ∀ c, c = 'e' ∨ c = 'E' → p.next? c = some letter

theorem ends_whole : whole.Ends := by
  rintro c (rfl | rfl) <;> rfl

theorem ends_fraction : fraction.Ends := by
  rintro c (rfl | rfl) <;> rfl

theorem run?_sign (s : Option Sign) :
    letter.run? (s.map Sign.symbol).toList = some (afterSign s) := by
  rcases s with _ | _ | _ <;> rfl

theorem Ends.run?_letter (ends : p.Ends) (e : c = 'e' ∨ c = 'E') (s : Option Sign) :
    p.run? (c :: (s.map Sign.symbol).toList) = some (afterSign s) := by
  rw [run?_cons, ends c e]
  exact run?_sign s

theorem Ends.run?_exponent (ends : p.Ends) {e : Exponent}
    (letter : e.letter = 'e' ∨ e.letter = 'E') : p.run? e.chars = some .exponent := by
  have front := ends.run?_letter letter e.sign
  rw [Exponent.chars, ← List.cons_append, run?_append_of_eq front, Exponent.digits, run?_run]
  cases e.sign <;> rfl

theorem whole_run?_point (fraction : DigitRun) :
    whole.run? ('.' :: fraction.text.toList) = some .fraction :=
  point.run?_run fraction

end Phase

/-- A spelling of a number runs through phases. -/
theorem IsSpelling.exists_run? {n : Numeral} (spelling : n.IsSpelling) :
    ∃ p, Phase.start.run? n.chars = some p := by
  have plain : ∃ p : Phase, p.Ends ∧ Phase.start.run? n.plain.chars = some p := by
    have whole := Phase.start.run?_run n.wholeRun
    rw [chars_plain, Numeral.whole, Phase.run?_append_of_eq whole, fractionChars, fraction]
    cases n.fractionRun with
    | none => exact ⟨.whole, Phase.ends_whole, rfl⟩
    | some run => exact ⟨.fraction, Phase.ends_fraction, Phase.whole_run?_point run⟩
  obtain ⟨p, ends, front⟩ := plain
  rw [chars_eq, Phase.run?_append_of_eq front, exponentChars]
  cases written : n.exponent with
  | none => exact ⟨p, rfl⟩
  | some e => exact ⟨.exponent, ends.run?_exponent (spelling e written)⟩

theorem Viable.exists_run? {cs : List Char} (h : Viable cs) :
    ∃ p, Phase.start.run? cs = some p := by
  obtain ⟨n, spelling, rest, written⟩ := h
  obtain ⟨p, run⟩ := spelling.exists_run?
  rw [← written, Phase.run?_append] at run
  obtain ⟨q, front, -⟩ := Option.bind_eq_some_iff.1 run
  exact ⟨q, front⟩

/-- Where the phase allows nothing more, no spelling goes on. -/
theorem not_viable_concat {cs : List Char} {p : Phase} {d : Char}
    (run : Phase.start.run? cs = some p) (stop : p.next? d = none) : ¬ Viable (cs ++ [d]) := by
  intro viable
  obtain ⟨q, further⟩ := viable.exists_run?
  rw [Phase.run?_append_of_eq run, Phase.run?_cons, stop] at further
  contradiction

/-! ## Spelling a number again -/

/-- The characters with a small `e` and without a plus. -/
def respelled (cs : List Char) : List Char :=
  (cs.filter (· ≠ '+')).map fun c => if c = 'E' then 'e' else c

/-- A number as its parts spell it. -/
def rebuilt (n : Numeral) : List Char :=
  n.whole.toList ++ (n.fraction.map fun digits => '.' :: digits.toList).getD [] ++
    (n.exponent.map fun e =>
      'e' :: ((if e.isNegative then ['-'] else []) ++ e.digits.toList)).getD []

theorem respelled_append (cs ds : List Char) :
    respelled (cs ++ ds) = respelled cs ++ respelled ds := by
  simp [respelled]

theorem respelled_run (run : DigitRun) : respelled run.text.toList = run.text.toList := by
  have other : ∀ c ∈ run.text.toList, c ≠ '+' ∧ c ≠ 'E' := by
    intro c mem
    have digit := (Digits.isDigits_iff.1 run.isDigits).2 c mem
    constructor <;> rintro rfl <;> exact absurd digit (by decide)
  have unsigned : run.text.toList.filter (· ≠ '+') = run.text.toList :=
    List.filter_eq_self.2 fun c mem => by simpa using (other c mem).1
  have small : ∀ c ∈ run.text.toList, (if c = 'E' then 'e' else c) = id c := fun c mem =>
    if_neg (other c mem).2
  rw [respelled, unsigned, List.map_congr_left small, List.map_id]

theorem respelled_exponent {e : Exponent} (letter : e.letter = 'e' ∨ e.letter = 'E') :
    respelled e.chars = 'e' :: ((if e.isNegative then ['-'] else []) ++ e.digits.toList) := by
  have small : respelled [e.letter] = ['e'] := by
    rcases letter with same | same <;> rw [same] <;> rfl
  have sign : respelled (e.sign.map Sign.symbol).toList = if e.isNegative then ['-'] else [] := by
    rw [Exponent.isNegative]
    rcases e.sign with _ | _ | _ <;> rfl
  rw [Exponent.chars, ← List.singleton_append, respelled_append, respelled_append, small, sign,
    Exponent.digits, respelled_run]
  rfl

/-- The parts of a number spell it again, but for the case of its letter and a plus behind it. -/
theorem respelled_chars {n : Numeral} (spelling : n.IsSpelling) :
    respelled n.chars = n.rebuilt := by
  have point : respelled ['.'] = ['.'] := rfl
  have fraction : respelled ((n.fraction.map fun digits => '.' :: digits.toList).getD []) =
      (n.fraction.map fun digits => '.' :: digits.toList).getD [] := by
    unfold Numeral.fraction
    cases n.fractionRun with
    | none => rfl
    | some run =>
      change respelled (['.'] ++ run.text.toList) = ['.'] ++ run.text.toList
      rw [respelled_append, point, respelled_run]
  have exponent : respelled ((n.exponent.map Exponent.chars).getD []) =
      (n.exponent.map fun e =>
        'e' :: ((if e.isNegative then ['-'] else []) ++ e.digits.toList)).getD [] := by
    cases written : n.exponent with
    | none => rfl
    | some e => exact respelled_exponent (spelling e written)
  rw [chars, rebuilt, respelled_append, respelled_append, fraction, exponent, whole, respelled_run]

end Numeral

/-! ## The reader of numbers -/

open Numeral (Phase)

namespace Lexeme

/-- Behind the characters `start`, which end in the phase `p`, a lexeme takes as many characters as
a spelling can go on with. -/
def Halts (l : Lexeme) (p : Phase) (start cs : List Char) : Prop :=
  ∃ taken more q, l.chars = start ++ taken ∧ cs = taken ++ more ∧ p.run? taken = some q ∧
    ∀ d ∈ more.head?, q.next? d = none

variable {l : Lexeme} {p q : Phase} {c : Char} {start cs : List Char}

theorem Halts.of_run {taken : List Char} (run : p.run? taken = some q)
    (h : l.Halts q (start ++ taken) cs) : l.Halts p start (taken ++ cs) := by
  obtain ⟨others, more, r, written, rfl, further, stop⟩ := h
  refine ⟨taken ++ others, more, r, ?_, ?_, ?_, stop⟩
  · rw [written, List.append_assoc]
  · rw [List.append_assoc]
  · rw [Phase.run?_append_of_eq run, further]

theorem Halts.viable (h : l.Halts .start [] cs) (viable : Numeral.Viable l.chars) :
    Longest Numeral.Viable cs l.chars := by
  obtain ⟨taken, more, q, written, rfl, run, stop⟩ := h
  rw [List.nil_append] at written
  rw [written] at viable ⊢
  exact .of_stop Numeral.Viable.of_append viable fun d mem =>
    Numeral.not_viable_concat run (stop d mem)

/-- Where no digits are split off, no digit stands first. -/
theorem head_of_split?_eq_none (h : DigitRun.split? cs = none) :
    ∀ d ∈ cs.head?, d.isDigit = false := by
  intro d mem
  obtain ⟨ds, rfl⟩ : ∃ ds, cs = d :: ds := ⟨_, List.eq_cons_of_mem_head? mem⟩
  simpa using DigitRun.split?_eq_none_iff.1 h

theorem head_of_unsigned {rest : List Char} (h : Sign.ofChars cs = (none, rest)) :
    ∀ d ∈ rest.head?, d ≠ '+' ∧ d ≠ '-' := by
  unfold Sign.ofChars at h
  split at h
  · cases h
  · cases h
  · next plus minus =>
    obtain rfl := (Prod.mk.inj h).2
    rintro d mem
    obtain ⟨ds, rfl⟩ : ∃ ds, cs = d :: ds := ⟨_, List.eq_cons_of_mem_head? mem⟩
    exact ⟨by rintro rfl; exact plus ds rfl, by rintro rfl; exact minus ds rfl⟩

theorem halts_withExponent {n : Numeral} (plain : n.exponent = none) (ends : p.Ends)
    (stop : ∀ d ∈ cs.head?, ¬ (d = 'e' ∨ d = 'E') → p.next? d = none) :
    (withExponent n cs).Halts p n.chars cs := by
  by_cases letters : ∃ d ∈ cs.head?, d = 'e' ∨ d = 'E'
  · obtain ⟨letter, first, e⟩ := letters
    obtain ⟨more, rfl⟩ : ∃ more, cs = letter :: more := ⟨_, List.eq_cons_of_mem_head? first⟩
    rcases signed : Sign.ofChars more with ⟨sign, behind⟩
    have same := Sign.append_of_ofChars signed
    cases split : DigitRun.split? behind with
    | none =>
      -- The letter and the sign are taken all the same: a digit behind them would have gone on.
      refine ⟨letter :: (sign.map Sign.symbol).toList, behind, .afterSign sign, ?_, ?_,
        ends.run?_letter e sign, fun d mem => ?_⟩
      · simp [withExponent, e, signed, split, chars]
      · rw [same, List.cons_append]
      · have digit := head_of_split?_eq_none split d mem
        cases sign with
        | none =>
          obtain ⟨plus, minus⟩ := head_of_unsigned signed d mem
          simp [Phase.afterSign, Phase.next?, digit, plus, minus]
        | some s => simp [Phase.afterSign, Phase.next?, digit]
    | some parts =>
      obtain ⟨run, after⟩ := parts
      refine ⟨(Exponent.mk letter sign run).chars, after, .exponent, ?_, ?_,
        ends.run?_exponent e, fun d mem => ?_⟩
      · simp [withExponent, e, signed, split, chars, Numeral.chars_withExponent plain]
      · rw [same, DigitRun.append_of_split? split]
        simp [Exponent.chars, Exponent.digits]
      · simp [Phase.next?, head_of_split? split d mem]
  · have other : ∀ d ∈ cs.head?, ¬ (d = 'e' ∨ d = 'E') := fun d mem e => letters ⟨d, mem, e⟩
    refine ⟨[], cs, p, ?_, rfl, rfl, fun d mem => stop d mem (other d mem)⟩
    rw [withExponent_of_head n other, chars, List.append_nil]

/-- The digits of the whole part are all that stand there. -/
theorem halts_numberAt (whole : DigitRun) (digits : ∀ d ∈ cs.head?, d.isDigit = false) :
    (numberAt whole cs).Halts .whole whole.text.toList cs := by
  by_cases point : '.' ∈ cs.head?
  · obtain ⟨more, rfl⟩ : ∃ more, cs = '.' :: more := ⟨_, List.eq_cons_of_mem_head? point⟩
    cases split : DigitRun.split? more with
    | none =>
      refine ⟨['.'], more, .point, by simp [numberAt, split, chars], rfl, rfl, fun d mem => ?_⟩
      simp [Phase.next?, head_of_split?_eq_none split d mem]
    | some parts =>
      obtain ⟨fraction, behind⟩ := parts
      have further : (withExponent ⟨whole, some fraction, none⟩ behind).Halts .fraction
          (⟨whole, some fraction, none⟩ : Numeral).chars behind :=
        halts_withExponent rfl Phase.ends_fraction fun d mem other => by
          simp [Phase.next?, head_of_split? split d mem, other]
      have same : numberAt whole ('.' :: more) =
          withExponent ⟨whole, some fraction, none⟩ behind := by simp only [numberAt, split]
      rw [Numeral.chars_point] at further
      rw [same, DigitRun.append_of_split? split]
      exact further.of_run (Phase.whole_run?_point fraction)
  · have other : ∀ d ∈ cs.head?, d ≠ '.' := fun d mem same => point (same ▸ mem)
    rw [numberAt_of_head whole other, ← Numeral.chars_run]
    refine halts_withExponent rfl Phase.ends_whole fun d mem no_letter => ?_
    simp [Phase.next?, digits d mem, other d mem, no_letter]

/-- A digit starts the whole part of a number. -/
theorem first_of_isDigit (digit : c.isDigit = true) (cs : List Char) :
    ∃ whole behind, DigitRun.split? (c :: cs) = some (whole, behind) ∧
      first c cs = numberAt whole behind := by
  obtain ⟨-, mark, word⟩ := class_of_isDigit digit
  cases split : DigitRun.split? (c :: cs) with
  | none => simp [head_of_split?_eq_none split c rfl] at digit
  | some parts => exact ⟨parts.1, parts.2, rfl, by simp [first, mark, word, split]⟩

theorem halts_first (digit : c.isDigit = true) (cs : List Char) :
    (first c cs).Halts .start [] (c :: cs) := by
  obtain ⟨whole, behind, split, same⟩ := first_of_isDigit digit cs
  have further := halts_numberAt whole (head_of_split? split)
  rw [same, DigitRun.append_of_split? split]
  exact further.of_run (Phase.start.run?_run whole)

/-! ## The first lexeme -/

/-- Letters, digits and underscores. -/
def IsWord (cs : List Char) : Prop := ∀ c ∈ cs, continuesWord c = true

/-- The lexeme of a text that starts with `c`, and goes on with `cs`: the longest word, which is
reserved if it is the name of a type that variables have; the longest characters that a number can
start with, which are a number if they spell one; a mark; or a single character that is none of
them. -/
structure LongestAt (c : Char) (cs : List Char) (l : Lexeme) : Prop where
  word : startsWord c = true → ∃ text, l = .word text ∧
    Longest IsWord (c :: cs) text.toList ∧
    (∀ type, l.word? = some (.keyword type) ↔ type.isStorable = true ∧ type.name = text) ∧
    ((∀ type, l.word? ≠ some (.keyword type)) → l.word? = some (.identifier text))
  number : c.isDigit = true → Longest Numeral.Viable (c :: cs) l.chars ∧
    ((∃ n : Numeral, n.IsSpelling ∧ n.chars = l.chars) →
      ∃ n, l = .number n ∧ n.IsSpelling ∧ Numeral.respelled l.chars = n.rebuilt) ∧
    ((¬ ∃ n : Numeral, n.IsSpelling ∧ n.chars = l.chars) →
      ∃ flaw, l = .unknown l.text flaw ∧ flaw.code = .malformedNumber)
  mark : ∀ m, (c, m) ∈ Mark.punctuation → l = .mark m
  stray : startsWord c = false → c.isDigit = false → (∀ m, (c, m) ∉ Mark.punctuation) →
    l = .unknown c.toString .strayCharacter

theorem keyword?_eq_some_iff {text : String} {type : Scalar} :
    Scalar.keyword? text = some type ↔ type.isStorable = true ∧ type.name = text := by
  rw [Scalar.keyword?, Option.filter_eq_some_iff, and_comm]
  refine and_congr_right fun _ => ⟨Scalar.name_of_ofName?, ?_⟩
  rintro rfl
  exact Scalar.ofName?_name type

theorem word?_eq_keyword_iff {text : String} {type : Scalar} :
    (word text).word? = some (.keyword type) ↔ type.isStorable = true ∧ type.name = text := by
  rw [← keyword?_eq_some_iff, word?, Word.ofText]
  cases Scalar.keyword? text <;> simp

theorem word?_eq_identifier {text : String}
    (free : ∀ type, (word text).word? ≠ some (.keyword type)) :
    (word text).word? = some (.identifier text) := by
  rw [word?, Word.ofText] at free ⊢
  cases reserved : Scalar.keyword? text with
  | none => rfl
  | some type => exact absurd (by rw [reserved]) (free type)

theorem ofChar?_eq_some_iff {m : Mark} : Mark.ofChar? c = some m ↔ (c, m) ∈ Mark.punctuation := by
  have found : ∀ x ∈ Mark.punctuation, Mark.ofChar? x.1 = some x.2 := by decide
  refine ⟨fun h => ?_, fun mem => found _ mem⟩
  obtain ⟨before, after, split, -⟩ := List.lookup_eq_some_iff.1 h
  simp [split]

theorem longest_word (word : startsWord c = true) (cs : List Char) :
    Longest IsWord (c :: cs) (c :: cs.takeWhile continuesWord) := by
  have starts : continuesWord c = true := by
    simp only [startsWord, continuesWord, Char.isAlphanum, Bool.or_eq_true] at word ⊢
    tauto
  have taken : IsWord (c :: cs.takeWhile continuesWord) :=
    List.forall_mem_cons.2 ⟨starts, fun d mem => List.mem_takeWhile_imp mem⟩
  have split : c :: cs = (c :: cs.takeWhile continuesWord) ++ cs.dropWhile continuesWord := by
    rw [List.cons_append, List.takeWhile_append_dropWhile]
  rw [split]
  refine .of_stop (fun start rest all d mem => all d (List.mem_append_left _ mem)) taken ?_
  intro d mem all
  have stop := List.head?_dropWhile_not continuesWord cs
  rw [Option.mem_def.1 mem] at stop
  simp [all d (by simp)] at stop

theorem withExponent_cases (n : Numeral) (cs : List Char) :
    (∃ m, withExponent n cs = .number m) ∨
      ∃ text flaw, withExponent n cs = .unknown text flaw ∧ flaw ≠ .strayCharacter := by
  unfold withExponent
  split
  · exact .inl ⟨_, rfl⟩
  · split
    · dsimp only
      split
      · exact .inl ⟨_, rfl⟩
      · exact .inr ⟨_, _, rfl, by decide⟩
    · exact .inl ⟨_, rfl⟩

theorem numberAt_cases (whole : DigitRun) (cs : List Char) :
    (∃ n, numberAt whole cs = .number n) ∨
      ∃ text flaw, numberAt whole cs = .unknown text flaw ∧ flaw ≠ .strayCharacter := by
  unfold numberAt
  split
  · split
    · exact withExponent_cases _ _
    · exact .inr ⟨_, _, rfl, by decide⟩
  · exact withExponent_cases _ _

/-- A digit starts a number, or characters that only start one. -/
theorem number_or_malformed (digit : c.isDigit = true) (cs : List Char) :
    (∃ n, first c cs = .number n ∧ n.IsSpelling) ∨
    ∃ flaw, first c cs = .unknown (first c cs).text flaw ∧ flaw.code = .malformedNumber ∧
      Malformed (first c cs).chars := by
  obtain ⟨-, honest⟩ := reads_first (class_of_isDigit digit).1 cs
  obtain ⟨whole, behind, -, same⟩ := first_of_isDigit digit cs
  obtain ⟨n, number⟩ | ⟨text, flaw, unknown, other⟩ := numberAt_cases whole behind
  · exact .inl ⟨n, same.trans number, spelling_of_first (same.trans number)⟩
  · have written : (Lexeme.unknown text flaw).text = text := String.ofList_toList
    rw [same, unknown] at honest ⊢
    rw [written]
    cases flaw with
    | strayCharacter => contradiction
    | noFractionDigits | noExponentDigits => exact .inr ⟨_, rfl, rfl, honest⟩

/-- The first lexeme is as long as it can be. -/
theorem longestAt_first (c : Char) (cs : List Char) :
    LongestAt c cs (first c cs) where
  word starts := by
    have unmarked : Mark.ofChar? c = none := by
      cases mark : Mark.ofChar? c with
      | none => rfl
      | some m =>
        have symbols : ∀ x ∈ Mark.punctuation, startsWord x.1 = false := by decide
        simp [symbols _ (ofChar?_eq_some_iff.1 mark)] at starts
    have same : first c cs = .word (String.ofList (c :: cs.takeWhile continuesWord)) := by
      simp [first, unmarked, starts]
    rw [same]
    refine ⟨_, rfl, ?_, fun type => word?_eq_keyword_iff, word?_eq_identifier⟩
    rw [String.toList_ofList]
    exact longest_word starts cs
  number digit := by
    have halts := halts_first digit cs
    obtain ⟨n, same, spelling⟩ | ⟨flaw, same, code, malformed⟩ := number_or_malformed digit cs
    · have chars : (first c cs).chars = n.chars := by rw [same, chars]
      refine ⟨halts.viable ⟨n, spelling, by rw [chars]⟩, fun _ => ⟨n, same, spelling, ?_⟩,
        fun none => absurd ⟨n, spelling, chars.symm⟩ none⟩
      rw [chars, Numeral.respelled_chars spelling]
    · refine ⟨halts.viable malformed.1, fun spelled => ?_, fun _ => ⟨flaw, same, code⟩⟩
      obtain ⟨n, -, spelled⟩ := spelled
      exact absurd spelled (malformed.2 n)
  mark m mem := by
    rw [first, ofChar?_eq_some_iff.2 mem]
  stray word digit unmarked := by
    have mark : Mark.ofChar? c = none := Option.eq_none_iff_forall_not_mem.2 fun m mem =>
      unmarked m (ofChar?_eq_some_iff.1 mem)
    have split : DigitRun.split? (c :: cs) = none := by
      simp [DigitRun.split?_eq_none_iff, digit]
    simp [first, mark, word, split]

/-! A null character is as stray as any other. -/

example : first '\x00' ['1'] = .unknown "\x00" .strayCharacter := by decide

end Lexeme

/-! ## The lexemes of a source -/

/-- Every token but the end mark is the first lexeme of what is left of the text. -/
theorem Token.exists_first_of_mem {p : Position} {cs : List Char} {t : Token}
    (mem : t ∈ ofChars p cs) (inner : t.isEnd = false) :
    ∃ before c rest, cs = before ++ c :: rest ∧ Lexeme.isBlank c = false ∧
      t = place (p.after before) (.first c rest) := by
  fun_induction ofChars p cs with
  | case1 p =>
    rw [List.mem_singleton.1 mem] at inner
    contradiction
  | case2 p c cs blank ih =>
    obtain ⟨before, d, rest, rfl, visible, same⟩ := ih mem
    exact ⟨c :: before, d, rest, rfl, visible, same⟩
  | case3 p c cs blank l ih =>
    have visible : Lexeme.isBlank c = false := by simpa using blank
    obtain rfl | mem := List.mem_cons.1 mem
    · exact ⟨[], c, cs, rfl, visible, rfl⟩
    · obtain ⟨⟨taken, more, chars, rfl⟩, -⟩ := Lexeme.reads_first visible cs
      obtain ⟨before, d, rest, left, visible, same⟩ := ih mem
      have drop : (taken ++ more).drop (l.chars.length - 1) = more := by simp [l, chars]
      rw [drop] at left
      refine ⟨[c] ++ taken ++ before, d, rest, by simp [left], visible, ?_⟩
      rw [same, ← Position.after_append, chars]

namespace Source

/-- A reader finds the tokens of every text without a fault. Each of them but the end mark starts at
a character of the text that is not blank, covers the longest run that its kind of lexeme can take
there, and is reported if it is flawed. -/
theorem lexemes_longest (s : Source) :
    (∀ r, Guarded.tokens r s = .ok (s.tokens, r.pushAll s.lexicalErrors)) ∧
    ∀ t ∈ s.tokens, t.isEnd = false → ∃ before c cs,
      s.text.toList = before ++ c :: cs ∧ t.span.first.offset = Utf8.size before ∧
      Lexeme.isBlank c = false ∧ t.span.text = .ok t.lexeme.text ∧ t.lexeme.LongestAt c cs ∧
      ∀ text flaw, t.lexeme = .unknown text flaw →
        .coded .lexing flaw.code t.span flaw.message ∈ s.lexicalErrors := by
  refine ⟨fun r => Guarded.tokens_eq r s, fun t mem inner => ?_⟩
  obtain ⟨before, c, cs, text, visible, same⟩ := Token.exists_first_of_mem mem inner
  refine ⟨before, c, cs, text, ?_, visible,
    (s.tiles.stands (Position.ahead_start s) mem inner).text.1, ?_, fun text flaw unknown => ?_⟩
  · simp [same, Token.place]
  · rw [same]
    exact Lexeme.longestAt_first c cs
  · refine List.mem_filterMap.2 ⟨t, mem, ?_⟩
    rw [Token.diagnostic?, Token.flaw?, unknown]
    rfl

/-- A number that breaks off in front of a word. -/
def broken : Source := ⟨0, "", "7.5e+x"⟩

theorem lexemes_longest_broken :
    ∃ t ∈ broken.tokens, t.isEnd = false ∧ t.lexeme = .unknown "7.5e+" .noExponentDigits ∧
      Longest Numeral.Viable broken.text.toList t.lexeme.chars ∧
      .coded .lexing .malformedNumber t.span "expected digits in the exponent" ∈
        broken.lexicalErrors := by
  have found : ∃ t ∈ broken.tokens, t.isEnd = false ∧ t.span.first.offset = 0 ∧
      t.lexeme = .unknown "7.5e+" .noExponentDigits := by decide +kernel
  obtain ⟨t, mem, inner, first, unknown⟩ := found
  obtain ⟨-, lexemes⟩ := lexemes_longest broken
  obtain ⟨before, c, cs, text, offset, -, -, longest, reported⟩ := lexemes t mem inner
  obtain rfl : before = [] := Utf8.size_eq_zero.1 (offset.symm.trans first)
  have digit : c = '7' := by
    have chars : broken.text.toList = ['7', '.', '5', 'e', '+', 'x'] := by decide +kernel
    exact (List.cons.inj (text.symm.trans chars)).1
  refine ⟨t, mem, inner, unknown, ?_, reported _ _ unknown⟩
  rw [text]
  exact (longest.number (by rw [digit]; rfl)).1

end Source

end ConstLang
