import ConstLang.Compilation
import ConstLang.Proofs.Guarded.Token
import ConstLang.Program.Parser

/-!
# The tokens tile the text

A text is its lexemes with blanks between them. `Token.Tiles` says how the tokens from a position on
lie in the characters ahead, with one rule for a blank, for a lexeme and for the end, and what else
is said about the tokens of a source follows the rules. The reader that goes from position to
position reports the flawed tokens while it reads, and nothing else.
-/

namespace ConstLang

namespace Token

/-- Tokens lie in the characters from a position on. -/
inductive Tiles : Position → List Char → List Token → Prop
  | nil (p : Position) : Tiles p [] [place p (.mark .endOfFile)]
  | blank {p : Position} {c : Char} {cs : List Char} {ts : List Token} :
      Lexeme.isBlank c = true → Tiles (p.step c) cs ts → Tiles p (c :: cs) ts
  | lexeme {p : Position} {l : Lexeme} {cs : List Char} {ts : List Token} :
      l.chars ≠ [] → l.Honest → Tiles (p.after l.chars) cs ts →
      Tiles p (l.chars ++ cs) (place p l :: ts)

theorem tiles_ofChars (p : Position) (cs : List Char) : Tiles p cs (ofChars p cs) := by
  fun_induction ofChars p cs with
  | case1 p => exact .nil p
  | case2 p c cs blank ih => exact .blank blank ih
  | case3 p c cs blank l ih =>
    obtain ⟨⟨taken, more, chars, rfl⟩, honest⟩ := Lexeme.reads_first (by simpa using blank) cs
    have rest : (taken ++ more).drop (l.chars.length - 1) = more := by
      simp [l, chars]
    have split : c :: (taken ++ more) = l.chars ++ more := by simp [l, chars]
    rw [rest] at ih ⊢
    rw [split]
    exact .lexeme (by simp [l, chars]) honest ih

/-- A token stands in the text of `s`: its span starts where its characters are ahead, and ends at
the last of them. -/
def Stands (s : Source) (t : Token) : Prop :=
  ∃ p cs c rest, p.Ahead s (cs ++ c :: rest) ∧ t.lexeme.chars = cs ++ [c] ∧ t.span = ⟨p, p.after cs⟩

theorem Stands.of_span {s : Source} {t : Token} (h : t.Stands s) : t.span.Of s := by
  obtain ⟨p, cs, c, rest, ahead, -, span⟩ := h
  rw [span]
  exact Span.of_after ahead

/-- The text of the span is that of the lexeme. -/
theorem Stands.text {s : Source} {t : Token} (h : t.Stands s) :
    t.span.text = .ok t.lexeme.text ∧ t.lexeme.chars ≠ [] := by
  obtain ⟨p, cs, c, rest, ahead, chars, span⟩ := h
  rw [span, Span.text_of_char ahead, Lexeme.text, chars]
  exact ⟨rfl, by simp⟩

theorem stands_place {s : Source} {p : Position} {l : Lexeme} {rest : List Char}
    (nonempty : l.chars ≠ []) (h : p.Ahead s (l.chars ++ rest)) : (place p l).Stands s := by
  obtain ⟨cs, c, chars⟩ := (List.eq_nil_or_concat' l.chars).resolve_left nonempty
  refine ⟨p, cs, c, rest, ?_, chars, ?_⟩
  · rwa [chars, List.append_assoc] at h
  · rw [place, chars, List.dropLast_concat]

namespace Tiles

variable {s : Source} {p : Position} {cs : List Char} {ts : List Token}

/-- The tokens are lexemes that stand in the text, each with blanks in front, and then the end mark,
also with blanks in front. -/
theorem exists_parts (h : Tiles p cs ts) (ahead : p.Ahead s cs) :
    ∃ (parts : List (List Char × Token)) (last : List Char),
      ts = parts.map Prod.snd ++ [Mark.endOfFile.token (.single (p.after cs))] ∧
      cs = (parts.flatMap fun (gap, t) => gap ++ t.lexeme.chars) ++ last ∧
      (∀ c ∈ last, Lexeme.isBlank c = true) ∧
      ∀ part ∈ parts, (∀ c ∈ part.1, Lexeme.isBlank c = true) ∧ part.2.Stands s ∧
        part.2.lexeme.Honest := by
  induction h with
  | nil p => exact ⟨[], [], rfl, rfl, by simp, by simp⟩
  | @blank p c cs ts blank _ ih =>
    obtain ⟨parts, last, rfl, rfl, blanks, stand⟩ := ih ahead.step
    cases parts with
    | nil => exact ⟨[], c :: last, rfl, rfl, by simpa [blank] using blanks, by simp⟩
    | cons part parts =>
      obtain ⟨gap, t⟩ := part
      refine ⟨(c :: gap, t) :: parts, last, rfl, by simp, blanks, ?_⟩
      rw [List.forall_mem_cons] at stand ⊢
      exact ⟨⟨by simpa [blank] using stand.1.1, stand.1.2⟩, stand.2⟩
  | @lexeme p l cs ts nonempty honest _ ih =>
    obtain ⟨parts, last, rfl, rfl, blanks, stand⟩ := ih ahead.after
    refine ⟨([], place p l) :: parts, last, by simp [Position.after_append], by simp [place],
      blanks, ?_⟩
    rw [List.forall_mem_cons]
    exact ⟨⟨by simp, stands_place nonempty ahead, honest⟩, stand⟩

/-- No token starts before the position that the tokens lie behind. -/
theorem offset_le (h : Tiles p cs ts) : ∀ t ∈ ts, p.offset ≤ t.span.first.offset := by
  induction h with
  | nil p => simp [place]
  | blank _ _ ih =>
    intro t mem
    have := ih t mem
    rw [Position.offset_step] at this
    omega
  | lexeme _ _ _ ih =>
    intro t mem
    rcases List.mem_cons.1 mem with rfl | mem
    · exact Nat.le_refl _
    · have := ih t mem
      rw [Position.offset_after] at this
      omega

theorem size_dropLast_lt {cs : List Char} (nonempty : cs ≠ []) :
    Utf8.size cs.dropLast < Utf8.size cs := by
  have last := Utf8.size_append cs.dropLast [cs.getLast nonempty]
  rw [List.dropLast_append_getLast nonempty] at last
  have := (cs.getLast nonempty).utf8Size_pos
  simp only [Utf8.size_cons, Utf8.size_nil] at last
  omega

/-- Every token ends before the next ones start. -/
theorem pairwise (h : Tiles p cs ts) :
    ts.Pairwise fun t u => t.span.last.offset < u.span.first.offset := by
  induction h with
  | nil p => simp
  | blank _ _ ih => exact ih
  | lexeme nonempty _ tiles ih =>
    refine List.pairwise_cons.2 ⟨fun u mem => ?_, ih⟩
    have behind := tiles.offset_le u mem
    have := size_dropLast_lt nonempty
    rw [Position.offset_after] at behind
    rw [place, Position.offset_after]
    omega

/-- There is at most one token for each character, and the end mark. -/
theorem length_le (h : Tiles p cs ts) : ts.length ≤ cs.length + 1 := by
  induction h with
  | nil p => exact le_rfl
  | blank _ _ ih => exact ih.trans (Nat.le_succ _)
  | lexeme nonempty _ _ ih =>
    have := List.length_pos_iff.2 nonempty
    rw [List.length_cons, List.length_append]
    omega

theorem length_chars_le (h : Tiles p cs ts) : ∀ t ∈ ts, t.lexeme.chars.length ≤ cs.length := by
  induction h with
  | nil p => simp [place, Lexeme.chars, Mark.chars]
  | blank _ _ ih => exact fun t mem => (ih t mem).trans (Nat.le_succ _)
  | lexeme _ _ _ ih =>
    intro t mem
    rw [List.length_append]
    rcases List.mem_cons.1 mem with rfl | mem
    · exact Nat.le_add_right _ _
    · exact (ih t mem).trans (Nat.le_add_left _ _)

end Tiles

end Token

/-- An offset is that of a character of a span. -/
def Span.Holds (span : Span) (offset : ℕ) : Prop :=
  span.first.offset ≤ offset ∧ offset ≤ span.last.offset

namespace Token.Tiles

/-- A character that no token holds is blank. -/
theorem isBlank_of_not_holds {p : Position} {cs : List Char} {ts : List Token} (h : Tiles p cs ts)
    {before after : List Char} {c : Char} (split : cs = before ++ c :: after)
    (free : ∀ t ∈ ts, ¬ t.span.Holds (p.offset + Utf8.size before)) :
    Lexeme.isBlank c = true := by
  induction h generalizing before with
  | nil p => simp at split
  | @blank p d cs ts blank _ ih =>
    cases before with
    | nil =>
      obtain ⟨rfl, -⟩ := List.cons.inj split
      exact blank
    | cons e before =>
      obtain ⟨rfl, rfl⟩ := List.cons.inj split
      refine ih rfl fun t mem => ?_
      rw [Position.offset_step, Nat.add_assoc]
      exact free t mem
  | @lexeme p l cs ts nonempty honest _ ih =>
    by_cases behind : Utf8.size l.chars ≤ Utf8.size before
    · obtain ⟨rest, rfl, tail⟩ := Utf8.append_of_size_le split behind
      refine ih tail fun t mem => ?_
      rw [Position.offset_after, Nat.add_assoc, ← Utf8.size_append]
      exact free t (List.mem_cons_of_mem _ mem)
    · -- The character is one of the lexeme's.
      obtain ⟨inside, chars, -⟩ := Utf8.append_of_size_le split.symm (by omega)
      have some_left : inside ≠ [] := by
        rintro rfl
        simp [chars] at behind
      refine absurd ⟨Nat.le_add_right _ _, ?_⟩ (free _ List.mem_cons_self)
      rw [place, Position.offset_after, chars, List.dropLast_append_of_ne_nil some_left,
        Utf8.size_append]
      omega

end Token.Tiles

namespace Token

/-- A diagnostic reports a flawed token: it is an error of the lexing stage about the span of the
token, and its code says what is wrong with the characters. -/
structure Reports (t : Token) (d : Diagnostic) : Prop where
  severity : d.severity = .error
  stage : d.stage = .lexing
  span : d.span = some t.span
  code : (d.code = some .strayCharacter ∧ ∃ c, t.lexeme.chars = [c] ∧ Lexeme.Stray c) ∨
    (d.code = some .malformedNumber ∧ Lexeme.Malformed t.lexeme.chars)

def isFlawed (t : Token) : Bool := t.flaw?.isSome

theorem isFlawed_iff {t : Token} :
    t.isFlawed = true ↔ ∃ text flaw, t.lexeme = .unknown text flaw := by
  rcases t with ⟨l, span⟩
  cases l <;> simp [isFlawed, flaw?]

theorem reports {t : Token} (honest : t.lexeme.Honest) {d : Diagnostic}
    (h : t.diagnostic? = some d) : t.Reports d := by
  rcases t with ⟨l, span⟩
  cases l with
  | unknown text flaw =>
    obtain rfl := Option.some.inj h
    cases flaw with
    | strayCharacter => exact ⟨rfl, rfl, rfl, .inl ⟨rfl, honest⟩⟩
    | noFractionDigits | noExponentDigits => exact ⟨rfl, rfl, rfl, .inr ⟨rfl, honest⟩⟩
  | mark | word | number => cases h

/-- The flawed tokens and what is said about them, one by one. -/
theorem forall₂_reports {ts : List Token} (honest : ∀ t ∈ ts, t.lexeme.Honest) :
    List.Forall₂ Reports (ts.filter isFlawed) (ts.filterMap diagnostic?) := by
  induction ts with
  | nil => exact .nil
  | cons t ts ih =>
    obtain ⟨first, rest⟩ := List.forall_mem_cons.1 honest
    cases hd : t.diagnostic? with
    | none =>
      have sound : ¬ t.isFlawed = true := by
        simp only [diagnostic?, Option.map_eq_none_iff] at hd
        simp [isFlawed, hd]
      rw [List.filter_cons_of_neg sound, List.filterMap_cons_none hd]
      exact ih rest
    | some d =>
      have flawed : t.isFlawed = true := by
        obtain ⟨flaw, hf, -⟩ := Option.map_eq_some_iff.1 hd
        simp [isFlawed, hf]
      rw [List.filter_cons_of_pos flawed, List.filterMap_cons_some hd]
      exact .cons (reports first hd) (ih rest)

/-- An error is reported exactly if a token is flawed. -/
theorem exists_error_iff {ts : List Token} :
    (∃ d ∈ ts.filterMap diagnostic?, d.severity = .error) ↔
      ∃ t ∈ ts, ∃ text flaw, t.lexeme = .unknown text flaw := by
  simp only [List.mem_filterMap, ← isFlawed_iff, isFlawed, diagnostic?]
  constructor
  · rintro ⟨d, ⟨t, mem, hd⟩, -⟩
    obtain ⟨flaw, hf, -⟩ := Option.map_eq_some_iff.1 hd
    exact ⟨t, mem, by simp [hf]⟩
  · rintro ⟨t, mem, flawed⟩
    obtain ⟨flaw, hf⟩ := Option.isSome_iff_exists.1 flawed
    exact ⟨_, ⟨t, mem, by rw [hf]; rfl⟩, by cases flaw <;> rfl⟩

end Token

namespace Source

variable (s : Source)

theorem tiles : Token.Tiles s.start s.text.toList s.tokens := Token.tiles_ofChars ..

/-- The tokens of a source tile its text. A reader finds them without a fault, and adds the same to
every report. The last token, and no other, is the end mark, at the end of the text; the others hold
one or more characters each, they follow one another without overlap, and what is between them is
blank. What the reader has added is one error for each flawed token, in their order. -/
theorem tokens_tile :
    ∃ added : List Diagnostic,
    (∀ r, Guarded.tokens r s = .ok (s.tokens, r.pushAll added)) ∧ added = s.lexicalErrors ∧
    (∃ (parts : List (List Char × Token)) (last : List Char) (stop : Position),
      s.tokens = parts.map Prod.snd ++ [Mark.endOfFile.token (.single stop)] ∧
      stop.source = s ∧ stop.offset = s.endOffset ∧
      (∀ part ∈ parts, part.2.isEnd = false ∧ part.2.lexeme.chars ≠ [] ∧ part.2.span.Of s ∧
        part.2.span.text = .ok part.2.lexeme.text) ∧
      s.text.toList = (parts.flatMap fun (gap, t) => gap ++ t.lexeme.chars) ++ last ∧
      ∀ gap ∈ last :: parts.map Prod.fst, ∀ c ∈ gap, Lexeme.isBlank c = true) ∧
    (s.tokens.Pairwise fun t u => t.span.last.offset < u.span.first.offset) ∧
    (∀ before c after, s.text.toList = before ++ c :: after →
      (∀ t ∈ s.tokens, ¬ t.span.Holds (Utf8.size before)) → Lexeme.isBlank c = true) ∧
    List.Forall₂ Token.Reports (s.tokens.filter Token.isFlawed) added ∧
    ((∃ d ∈ added, d.severity = .error) ↔
      ∃ t ∈ s.tokens, ∃ text flaw, t.lexeme = .unknown text flaw) := by
  have ahead := Position.ahead_start s
  obtain ⟨parts, last, tokens, text, blanks, stand⟩ := s.tiles.exists_parts ahead
  have honest : ∀ t ∈ s.tokens, t.lexeme.Honest := by
    intro t mem
    rw [tokens, List.mem_append, List.mem_map, List.mem_singleton] at mem
    obtain ⟨part, mem, rfl⟩ | rfl := mem
    · exact (stand part mem).2.2
    · trivial
  have reported := Token.forall₂_reports honest
  refine ⟨s.lexicalErrors, fun r => Guarded.tokens_eq r s, rfl,
    ⟨parts, last, _, tokens, by simp, ahead.after_all.offset_add_size, fun part mem => ?_, text,
      ?_⟩,
    s.tiles.pairwise, fun before c after split free => ?_, reported, Token.exists_error_iff⟩
  · obtain ⟨-, stands, -⟩ := stand part mem
    obtain ⟨same, nonempty⟩ := stands.text
    refine ⟨?_, nonempty, stands.of_span, same⟩
    by_contra isEnd
    have endOfFile : part.2.lexeme = .mark .endOfFile := by simpa [Token.isEnd] using isEnd
    exact nonempty (by rw [endOfFile]; rfl)
  · rw [List.forall_mem_cons, List.forall_mem_map]
    exact ⟨blanks, fun part mem => (stand part mem).1⟩
  · exact s.tiles.isBlank_of_not_holds split (by simpa using free)

/-- A name, a blank and a character that starts no lexeme. -/
def stray : Source := ⟨0, "", "a $"⟩

theorem tokens_tile_stray :
    (∀ t ∈ stray.tokens, ¬ t.span.Holds (Utf8.size ['a'])) ∧ Lexeme.isBlank ' ' = true ∧
    (∃ t ∈ stray.tokens, ∃ text flaw, t.lexeme = .unknown text flaw) ∧
    (∃ d ∈ stray.lexicalErrors, d.severity = .error) ∧
    Guarded.tokens .empty stray = .ok (stray.tokens, Report.empty.pushAll stray.lexicalErrors) := by
  have free : ∀ t ∈ stray.tokens, ¬ t.span.Holds (Utf8.size ['a']) := by
    unfold Span.Holds
    decide +kernel
  have flawed : ∃ t ∈ stray.tokens, t.isFlawed = true := by decide +kernel
  have unknown : ∃ t ∈ stray.tokens, ∃ text flaw, t.lexeme = .unknown text flaw := by
    obtain ⟨t, mem, flawed⟩ := flawed
    exact ⟨t, mem, Token.isFlawed_iff.1 flawed⟩
  obtain ⟨added, reads, rfl, -, -, blank, -, reported⟩ := tokens_tile stray
  exact ⟨free, blank ['a'] ' ' ['$'] (by decide +kernel) free, unknown, reported.2 unknown,
    reads .empty⟩

end Source

end ConstLang
