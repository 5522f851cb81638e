import ConstLang.Proofs.Token.Numeral
import ConstLang.Proofs.Token.Row

/-!
# Lexemes have no blanks in them

No character of a lexeme that is read from a text is blank. So a row of tokens starts and ends with
characters that can be seen, and so does the span of such tokens.
-/

namespace ConstLang

/-! ## Lexemes -/

/-- A character that goes on with no lexeme. -/
structure Lexeme.Separates (c : Char) : Prop where
  digit : c.isDigit = false
  word : continuesWord c = false
  point : c ≠ '.'
  sign : c ≠ '+' ∧ c ≠ '-'
  letter : ¬ (c = 'e' ∨ c = 'E')

theorem Lexeme.separates_of_isBlank {c : Char} (blank : isBlank c = true) : Separates c := by
  simp only [isBlank, Bool.or_eq_true, decide_eq_true_eq] at blank
  obtain ((rfl | rfl) | rfl) | rfl := blank <;> constructor <;> decide

theorem Lexeme.isBlank_of_continuesWord {c : Char} (h : continuesWord c = true) :
    isBlank c = false := by
  by_contra blank
  have other := separates_of_isBlank (by simpa using blank)
  rw [other.word] at h
  contradiction

theorem DigitRun.isBlank_of_mem {run : DigitRun} {c : Char} (h : c ∈ run.text.toList) :
    Lexeme.isBlank c = false := by
  have digits := run.isDigits
  rw [Digits.isDigits, Bool.and_eq_true, List.all_eq_true] at digits
  exact (Lexeme.class_of_isDigit (digits.2 c h)).1

theorem Exponent.isBlank_of_mem {e : Exponent} (letter : e.letter = 'e' ∨ e.letter = 'E') {c : Char}
    (h : c ∈ e.chars) : Lexeme.isBlank c = false := by
  simp only [Exponent.chars, List.mem_cons, List.mem_append] at h
  obtain rfl | sign | digit := h
  · obtain letter | letter := letter <;> rw [letter] <;> decide
  · cases same : e.sign with
    | none => simp [same] at sign
    | some s =>
      obtain rfl : c = s.symbol := by simpa [same] using sign
      cases s <;> decide
  · exact DigitRun.isBlank_of_mem digit

theorem Numeral.isBlank_of_mem {n : Numeral} (spelling : n.IsSpelling) {c : Char}
    (h : c ∈ n.chars) : Lexeme.isBlank c = false := by
  simp only [Numeral.chars, List.mem_append] at h
  obtain (whole | fraction) | exponent := h
  · exact DigitRun.isBlank_of_mem whole
  · cases same : n.fractionRun with
    | none => simp [Numeral.fraction, same] at fraction
    | some run =>
      simp only [Numeral.fraction, same, Option.map_some, Option.getD_some, List.mem_cons]
        at fraction
      obtain rfl | digit := fraction
      · decide
      · exact DigitRun.isBlank_of_mem digit
  · cases same : n.exponent with
    | none => simp [same] at exponent
    | some e =>
      rw [same] at exponent
      exact Exponent.isBlank_of_mem (spelling e same) exponent

namespace Lexeme

/-- No character of the lexeme is blank. -/
def Solid (l : Lexeme) : Prop := ∀ c ∈ l.chars, isBlank c = false

variable {c : Char} {cs : List Char}

theorem solid_mark (m : Mark) : (mark m).Solid := by
  have visible : m.chars.all (fun c => !isBlank c) = true := by
    cases m <;> rfl
  intro c mem
  simpa using List.all_eq_true.1 visible c mem

theorem text_of_first_word {text : String} (h : first c cs = word text) :
    text = String.ofList (c :: cs.takeWhile continuesWord) := by
  unfold first at h
  split at h
  · contradiction
  · split at h
    · exact (Lexeme.word.inj h).symm
    · split at h
      · next whole rest split =>
        exfalso
        unfold numberAt withExponent at h
        grind
      · contradiction

theorem solid_first (blank : isBlank c = false) (cs : List Char) : (first c cs).Solid := by
  obtain ⟨⟨taken, more, chars, -⟩, honest⟩ := reads_first blank cs
  intro d mem
  cases same : first c cs with
  | mark m =>
    rw [same] at mem
    exact solid_mark m d mem
  | word text =>
    obtain rfl := text_of_first_word same
    rw [same, Lexeme.chars, String.toList_ofList] at mem
    obtain rfl | mem := List.mem_cons.1 mem
    · exact blank
    · exact isBlank_of_continuesWord (List.mem_takeWhile_imp mem)
  | number n =>
    rw [same] at mem
    exact Numeral.isBlank_of_mem (spelling_of_first same) mem
  | unknown text flaw =>
    rw [same] at mem honest
    cases flaw with
    | strayCharacter =>
      obtain ⟨e, written, stray⟩ := honest
      rw [Lexeme.chars, written, List.mem_singleton] at mem
      exact mem ▸ stray.1
    | noFractionDigits | noExponentDigits =>
      obtain ⟨⟨n, spelling, start⟩, -⟩ := honest
      exact Numeral.isBlank_of_mem spelling (start.subset mem)

end Lexeme

namespace Token

theorem solid_ofChars (p : Position) (cs : List Char) : ∀ t ∈ ofChars p cs, t.lexeme.Solid := by
  fun_induction ofChars p cs with
  | case1 p =>
    intro t mem
    rw [List.mem_singleton.1 mem]
    exact Lexeme.solid_mark .endOfFile
  | case2 p c cs blank ih => exact ih
  | case3 p c cs blank l ih =>
    exact List.forall_mem_cons.2 ⟨Lexeme.solid_first (by simpa using blank) cs, ih⟩

/-! ## Rows -/

/-- A row of solid tokens starts and ends with characters that are not blank. -/
theorem Row.ends {p : Position} {cs : List Char} {ts : List Token} (h : Row p cs ts)
    (solid : ∀ t ∈ ts, t.lexeme.Solid) :
    (∀ c ∈ cs.head?, Lexeme.isBlank c = false) ∧ ∀ c ∈ cs.getLast?, Lexeme.isBlank c = false := by
  induction h with
  | @last p l written =>
    have visible := solid (place p l) (List.mem_singleton_self _)
    exact ⟨fun c mem => visible c (List.mem_of_mem_head? mem),
      fun c mem => visible c (List.mem_of_mem_getLast? mem)⟩
  | @cons p l gap cs ts written blanks row ih =>
    obtain ⟨first, others⟩ := List.forall_mem_cons.1 solid
    obtain ⟨-, last⟩ := ih others
    obtain ⟨c, chars, same⟩ := List.exists_cons_of_ne_nil written
    constructor
    · rw [same]
      rintro d ⟨rfl⟩
      exact first _ (by simp [place, same])
    · rw [List.getLast?_append_of_ne_nil _ (by simp [row.ne_nil]),
        List.getLast?_append_of_ne_nil _ row.ne_nil]
      exact last

end Token

theorem Source.solid_tokens (s : Source) : ∀ t ∈ s.tokens, t.lexeme.Solid := Token.solid_ofChars _ _

/-! ## Spans -/

/-- A span of `s` that starts and ends with characters that are not blank. -/
structure Span.Visible (s : Source) (span : Span) (before inside after : List Char) : Prop where
  text : s.text.toList = before ++ (inside ++ after)
  eq : span = ⟨s.start.after before, s.start.after (before ++ inside.dropLast)⟩
  nonempty : inside ≠ []
  head : ∀ c ∈ inside.head?, Lexeme.isBlank c = false
  last : ∀ c ∈ inside.getLast?, Lexeme.isBlank c = false

theorem Span.Exact.exists_visible {s : Source} {span : Span} {ts : List Token}
    (h : span.Exact s ts) (solid : ∀ t ∈ ts, t.lexeme.Solid) :
    ∃ before inside after, span.Visible s before inside after := by
  obtain ⟨before, inside, after, text, row, same, -⟩ := h.text
  obtain ⟨head, last⟩ := row.ends solid
  exact ⟨before, inside, after, text, same, row.ne_nil, head, last⟩

theorem Token.exists_visible {s : Source} {t : Token} (mem : t ∈ s.tokens)
    (inner : t.isEnd = false) : ∃ before inside after, t.span.Visible s before inside after := by
  obtain ⟨front, back, split⟩ := List.append_of_mem mem
  have consecutive : [t] <:+: s.tokens := ⟨front, back, by simp [split]⟩
  have exact := (Span.bounds_single t).exact consecutive (by simpa using inner)
  exact exact.exists_visible (by simpa using s.solid_tokens t mem)

end ConstLang
