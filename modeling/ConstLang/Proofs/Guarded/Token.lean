import ConstLang.Compilation
import ConstLang.Guarded.Token
import ConstLang.Proofs.Lexeme
import ConstLang.Proofs.Span

/-!
# The reader of tokens breaks no contract

A reader that goes from position to position finds the tokens of the source, and each of its calls
keeps the contract of the operation. One lemma for each of its functions says where it stops and
what it has reported, at any position of any source and from any report.
-/

namespace ConstLang.Guarded

open Position

variable {s : Source} {p first last : Position} {c : Char} {cs rest : List Char}

theorem readWhile_eq {test : Char → Bool} (closed : test Source.closing = false)
    (h : p.Ahead s cs) (last : Position) :
    readWhile test last p =
      .ok (cs.takeWhile test,
        if cs.takeWhile test = [] then last else p.after (cs.takeWhile test).dropLast,
        p.after (cs.takeWhile test)) := by
  induction cs generalizing p last with
  | nil =>
    rw [readWhile, h.char_nil]
    simp [closed]
  | cons c cs ih =>
    rw [readWhile, h.char]
    dsimp only
    by_cases pass : test c = true
    · rw [if_pos pass, List.takeWhile_cons_of_pos pass]
      split
      · next fault advanced => simp [h.advance] at advanced
      · next next advanced =>
        obtain rfl := Except.ok.inj (h.advance.symm.trans advanced)
        rw [ih h.step p]
        cases cs.takeWhile test <;> rfl
    · rw [if_neg pass, List.takeWhile_cons_of_neg pass]
      rfl

theorem skipBlanks_eq (h : p.Ahead s cs) :
    skipBlanks p = .ok (p.after (cs.takeWhile Lexeme.isBlank)) := by
  induction cs generalizing p with
  | nil =>
    rw [skipBlanks, h.isEnd]
    rfl
  | cons c cs ih =>
    rw [skipBlanks, h.isEnd, h.char]
    dsimp only [List.isEmpty_cons]
    by_cases blank : Lexeme.isBlank c = true
    · rw [if_neg (by simp), if_pos blank, List.takeWhile_cons_of_pos blank]
      split
      · next fault advanced => simp [h.advance] at advanced
      · next next advanced =>
        obtain rfl := Except.ok.inj (h.advance.symm.trans advanced)
        rw [ih h.step]
        rfl
    · rw [if_neg (by simp), if_neg blank, List.takeWhile_cons_of_neg blank]
      rfl

theorem mark?_eq (h : p.Ahead s (c :: cs)) : mark? p = .ok (Mark.ofChar? c) := by
  rw [mark?, h.source, h.slice_contents, ok_bind]
  simp [pure, Except.pure]

theorem digits?_eq (h : p.Ahead s cs) :
    digits? p = .ok ((DigitRun.split? cs).map fun (run, _) =>
      (run, p.after run.text.toList.dropLast, p.after run.text.toList)) := by
  rw [digits?, readWhile_eq (by decide) h, ok_bind, DigitRun.split?]
  dsimp only
  split
  · next digits =>
    have nonempty := (Digits.isDigits_iff.1 digits).1
    simp [nonempty, pure, Except.pure]
  · rfl

theorem ofChars_cons (c : Char) (cs : List Char) :
    (Sign.ofChars (c :: cs)).1 = (Sign.ofChars [c]).1 := by
  unfold Sign.ofChars
  split <;> simp_all

theorem sign?_eq (h : p.Ahead s cs) (last : Position) :
    sign? last p = .ok ((Sign.ofChars cs).1, if (Sign.ofChars cs).1 = none then last else p,
      p.after ((Sign.ofChars cs).1.map Sign.symbol).toList) := by
  cases cs with
  | nil =>
    rw [sign?, h.char_nil]
    rfl
  | cons c cs =>
    rw [sign?, h.char, ok_bind, ofChars_cons c cs]
    rcases signed : Sign.ofChars [c] with ⟨sign, rest⟩
    cases sign with
    | none => rfl
    | some sign =>
      have taken := Sign.append_of_ofChars signed
      simp only [Option.map_some, Option.toList_some, List.singleton_append, List.cons.injEq]
        at taken
      obtain ⟨rfl, -⟩ := taken
      dsimp only
      rw [h.advance, ok_bind]
      rfl

/-- What the reader comes to if it finds a lexeme at a position. -/
def found (r : Report) (p : Position) (l : Lexeme) : Found :=
  (Token.place p l, p.after l.chars, r.pushAll (Token.place p l).diagnostic?.toList)

theorem place_eq (r : Report) {l : Lexeme} (first : Position)
    (sound : (Token.place first l).diagnostic? = none) :
    place r l first (first.after l.chars.dropLast) (first.after l.chars) =
      .ok (found r first l) := by
  rw [place, Span.between_after, found, sound]
  rfl

theorem refuse_eq (r : Report) (flaw : Flaw) (h : first.Ahead s (cs ++ rest))
    (nonempty : cs ≠ []) :
    refuse r flaw flaw.code flaw.message first (first.after cs.dropLast) (first.after cs) =
      .ok (found r first (.unknown (String.ofList cs) flaw)) := by
  have split := List.dropLast_append_getLast nonempty
  have ahead : first.Ahead s (cs.dropLast ++ cs.getLast nonempty :: rest) := by
    rwa [List.append_cons, split]
  rw [refuse, Span.between_after, ok_bind, Span.text_of_char ahead, ok_bind, split]
  simp only [found, Token.place, Token.diagnostic?, Token.flaw?, Lexeme.chars, String.toList_ofList]
  rfl

/-- Characters that were read before a run of digits, and the run. -/
theorem place_run (r : Report) {n : Numeral} {run : DigitRun}
    (written : n.chars = cs ++ run.text.toList) :
    place r (.number n) first ((first.after cs).after run.text.toList.dropLast)
        ((first.after cs).after run.text.toList) =
      .ok (found r first (.number n)) := by
  have nonempty := (Digits.isDigits_iff.1 run.isDigits).1
  rw [← after_append, ← after_append, ← List.dropLast_append_of_ne_nil nonempty, ← written]
  exact place_eq r first rfl

theorem exponent_eq (r : Report) {n : Numeral} (plain : n.exponent = none)
    (h : first.Ahead s (n.chars ++ rest)) :
    exponent r n first (first.after n.chars.dropLast) (first.after n.chars) =
      .ok (found r first (Lexeme.withExponent n rest)) := by
  have here := h.after
  unfold exponent Lexeme.withExponent
  cases rest with
  | nil =>
    rw [here.char_nil, ok_bind, if_neg (by decide)]
    exact place_eq r first rfl
  | cons letter more =>
    rw [here.char, ok_bind]
    dsimp only
    by_cases e : letter = 'e' ∨ letter = 'E'
    · rw [if_pos e, if_pos e, here.advance, ok_bind, sign?_eq here.step, ok_bind]
      rcases signed : Sign.ofChars more with ⟨sign, behind⟩
      have taken := Sign.append_of_ofChars signed
      dsimp only
      set written := n.chars ++ letter :: (sign.map Sign.symbol).toList with hw
      have stop : ((first.after n.chars).step letter).after (sign.map Sign.symbol).toList =
          first.after written := by rw [hw, after_append, after_cons]
      have last : (if sign = none then first.after n.chars else (first.after n.chars).step letter) =
          first.after written.dropLast := by
        cases sign with
        | none => simp [hw]
        | some sign =>
          rw [if_neg nofun, hw, Option.map_some, Option.toList_some, List.append_cons,
            List.dropLast_concat, after_append]
          rfl
      have ahead : first.Ahead s (written ++ behind) := by
        simpa [hw, taken] using h
      rw [stop, last, digits?_eq ahead.after, ok_bind]
      cases DigitRun.split? behind with
      | none => exact refuse_eq r .noExponentDigits ahead (by simp [hw])
      | some split =>
        obtain ⟨run, after⟩ := split
        refine place_run r ?_
        rw [Lexeme.Numeral.chars_withExponent plain]
        simp [hw, Exponent.chars, Exponent.digits]
    · rw [if_neg e, if_neg e]
      exact place_eq r first rfl

theorem number_eq (r : Report) {whole : DigitRun}
    (h : first.Ahead s (whole.text.toList ++ rest)) :
    number r whole first (first.after whole.text.toList.dropLast) (first.after whole.text.toList) =
      .ok (found r first (Lexeme.numberAt whole rest)) := by
  have here := h.after
  have integer := Numeral.chars_run whole
  have plain := exponent_eq r (n := ⟨whole, none, none⟩) rfl (integer.symm ▸ h)
  rw [integer] at plain
  unfold number
  cases rest with
  | nil =>
    rw [here.char_nil, ok_bind, if_neg (by decide)]
    exact plain
  | cons c more =>
    rw [here.char, ok_bind]
    by_cases point : c = '.'
    · subst point
      rw [if_pos rfl, here.advance, ok_bind, digits?_eq here.step, ok_bind]
      have ahead : first.Ahead s ((whole.text.toList ++ ['.']) ++ more) := by simpa using h
      rw [Lexeme.numberAt]
      cases digits : DigitRun.split? more with
      | none =>
        have pushed : whole.text.push '.' = String.ofList (whole.text.toList ++ ['.']) := by
          rw [← String.toList_push, String.ofList_toList]
        have read := refuse_eq r .noFractionDigits ahead (by simp)
        rw [List.dropLast_concat, after_append] at read
        rw [pushed]
        exact read
      | some found =>
        obtain ⟨fraction, behind⟩ := found
        have nonempty := (Digits.isDigits_iff.1 fraction.isDigits).1
        have written : (Numeral.mk whole (some fraction) none).chars =
            (whole.text.toList ++ ['.']) ++ fraction.text.toList := by
          rw [Numeral.chars_point, List.append_assoc, List.singleton_append]
        rw [DigitRun.append_of_split? digits, ← List.append_assoc, ← written] at ahead
        have read := exponent_eq r (n := ⟨whole, some fraction, none⟩) rfl ahead
        rw [written, List.dropLast_append_of_ne_nil nonempty] at read
        simp only [after_append] at read
        exact read
    · rw [if_neg point]
      unfold Lexeme.numberAt
      split
      · next same => exact absurd (List.cons.inj same).1 point
      · exact plain

theorem next_eq (r : Report) (h : p.Ahead s (c :: cs)) :
    next r p = .ok (found r p (Lexeme.first c cs)) := by
  rw [next, mark?_eq h, ok_bind]
  unfold Lexeme.first
  cases mark : Mark.ofChar? c with
  | some m =>
    have written := Lexeme.chars_of_ofChar? mark
    dsimp only
    rw [h.advance, ok_bind]
    have placed := place_eq r (l := .mark m) p rfl
    simpa [Lexeme.chars, written] using placed
  | none =>
    dsimp only
    rw [h.char, ok_bind]
    by_cases word : Lexeme.startsWord c = true
    · have taken : (c :: cs).takeWhile Lexeme.continuesWord =
          c :: cs.takeWhile Lexeme.continuesWord :=
        List.takeWhile_cons_of_pos (continuesWord word)
      rw [if_pos word, if_pos word, readWhile_eq (by decide) h, ok_bind, taken]
      have placed :=
        place_eq r (l := .word (String.ofList (c :: cs.takeWhile Lexeme.continuesWord))) p rfl
      rw [Lexeme.chars, String.toList_ofList] at placed
      exact placed
    · rw [if_neg word, if_neg word, digits?_eq h, ok_bind]
      cases digits : DigitRun.split? (c :: cs) with
      | none =>
        dsimp only [Option.map_none]
        rw [h.advance, ok_bind]
        have ahead : p.Ahead s ([c] ++ cs) := h
        exact refuse_eq r .strayCharacter ahead (by simp)
      | some found =>
        obtain ⟨whole, rest⟩ := found
        exact number_eq r (DigitRun.append_of_split? digits ▸ h)

theorem pushAll_cons_diagnostic? (r : Report) (t : Token) (ts : List Token) :
    (r.pushAll t.diagnostic?.toList).pushAll (ts.filterMap Token.diagnostic?) =
      r.pushAll ((t :: ts).filterMap Token.diagnostic?) := by
  rw [List.filterMap_cons]
  cases t.diagnostic? <;> rfl

theorem tokensFrom_eq (r : Report) (h : p.Ahead s cs) :
    tokensFrom r p =
      .ok (Token.ofChars p cs, r.pushAll ((Token.ofChars p cs).filterMap Token.diagnostic?)) := by
  fun_induction Token.ofChars p cs generalizing r with
  | case1 p =>
    rw [tokensFrom_eq_bind, skipBlanks_eq h, ok_bind, List.takeWhile_nil, after_nil,
      if_pos (by simp [h.isEnd])]
    rfl
  | case2 p c cs blank ih =>
    -- Both readers skip to the same place.
    have skipped : skipBlanks p = skipBlanks (p.step c) := by
      rw [skipBlanks_eq h, skipBlanks_eq h.step, List.takeWhile_cons_of_pos blank, after_cons]
    rw [tokensFrom_eq_bind, skipped, ← tokensFrom_eq_bind]
    exact ih r h.step
  | case3 p c cs blank l ih =>
    obtain ⟨⟨taken, more, chars, rfl⟩, -⟩ := Lexeme.reads_first (by simpa using blank) cs
    have rest : (taken ++ more).drop (l.chars.length - 1) = more := by simp [l, chars]
    have ahead : p.Ahead s (l.chars ++ more) := by simpa [l, chars] using h
    rw [rest] at ih ⊢
    rw [tokensFrom_eq_bind, skipBlanks_eq h, ok_bind, List.takeWhile_cons_of_neg blank, after_nil,
      if_neg (by simp [h.isEnd]), next_eq r h, ok_bind]
    simp only [found]
    rw [ih _ ahead.after, ← pushAll_cons_diagnostic?]
    rfl

/-- The reader finds the tokens of a source and breaks no contract on the way, and it reports what
is wrong with them. -/
theorem tokens_eq (r : Report) (s : Source) :
    tokens r s = .ok (s.tokens, r.pushAll s.lexicalErrors) := tokensFrom_eq r (ahead_start s)

end ConstLang.Guarded
