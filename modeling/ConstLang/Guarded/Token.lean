import ConstLang.Diagnostic
import ConstLang.Token

/-!
# Tokens, read position by position

The tokens of a source once more, by a reader that only knows the position it has reached. Every
character is asked of the source, every position is made from the one before it, and every span from
two positions; each of these operations has a contract, and a call that breaks it is a fault. A
reader that breaks none finds `Source.tokens`. Where it meets characters that are no lexeme, it adds
an error to the report that it was given.
-/

namespace ConstLang

namespace Position

variable {p q : Position} {c : Char}

/-- How much of its source is ahead of a position. -/
def left (p : Position) : Nat := p.source.endOffset - p.offset

theorem offset_le_of_char (h : p.char = .ok c) : p.offset ≤ p.source.endOffset := by
  unfold char Source.charAt at h
  split at h
  · next before c rest split =>
    obtain ⟨contents, offset⟩ := Utf8.eq_append_of_splitAt? split
    have size : p.source.endOffset + 1 = Utf8.size p.source.contents.toList := by
      rw [Source.contents, String.toList_push, Utf8.size_append, ← Utf8.utf8ByteSize_eq]
      rfl
    rw [contents, Utf8.size_append, Utf8.size_cons, ← offset] at size
    have := c.utf8Size_pos
    omega
  · cases h

theorem left_of_advance (h : p.advance = .ok q) : q.left < p.left := by
  unfold advance at h
  split at h
  · cases h
  · next notEnd =>
    cases hc : p.char with
    | error fault => simp [hc, Except.map] at h
    | ok c =>
      rw [hc] at h
      obtain rfl := Except.ok.inj h
      have inside := offset_le_of_char hc
      have := c.utf8Size_pos
      simp only [isEnd, beq_iff_eq] at notEnd
      unfold left step
      split <;> dsimp only <;> omega

end Position

namespace Guarded

/-- Reads characters as long as they pass a test. The result is what was read, the position of the
last character of it, which is `last` if there is none, and the position behind. -/
def readWhile (test : Char → Bool) (last p : Position) :
    Except Fault (List Char × Position × Position) :=
  match p.char with
  | .error fault => .error fault
  | .ok c =>
    if test c then
      match _h : p.advance with
      | .error fault => .error fault
      | .ok next => (readWhile test p next).map fun (cs, last, stop) => (c :: cs, last, stop)
    else .ok ([], last, p)
termination_by p.left
decreasing_by exact Position.left_of_advance ‹_›

/-- The position of the next character that is not blank, or the end. -/
def skipBlanks (p : Position) : Except Fault Position :=
  if p.isEnd then .ok p
  else
    match p.char with
    | .error fault => .error fault
    | .ok c =>
      if Lexeme.isBlank c then
        match _h : p.advance with
        | .error fault => .error fault
        | .ok next => skipBlanks next
      else .ok p
termination_by p.left
decreasing_by exact Position.left_of_advance ‹_›

/-- The mark that the contents go on with at a position. -/
def mark? (p : Position) : Except Fault (Option Mark) := do
  let rest ← p.source.slice p.offset (p.source.endOffset + Source.closing.utf8Size)
  return rest.toList.head?.bind Mark.ofChar?

/-- The digits at a position, if one stands there, the position of the last and the one behind. -/
def digits? (p : Position) : Except Fault (Option (DigitRun × Position × Position)) := do
  let (cs, last, stop) ← readWhile Char.isDigit p p
  if h : Digits.isDigits cs then
    return some (⟨String.ofList cs, by rwa [String.toList_ofList]⟩, last, stop)
  else return none

/-- The sign at a position, if one stands there, the position of the last character read, which is
`last` without a sign, and the position behind. -/
def sign? (last p : Position) : Except Fault (Option Sign × Position × Position) := do
  match (Sign.ofChars [← p.char]).1 with
  | some sign => return (some sign, p, ← p.advance)
  | none => return (none, last, p)

/-- What the reader comes to at a lexeme: the token, the position behind it and the report. -/
abbrev Found := Token × Position × Report

/-- The token of a lexeme between two positions. Nothing is reported. -/
def place (r : Report) (l : Lexeme) (first last stop : Position) : Except Fault Found := do
  return (⟨l, ← Span.between first last⟩, stop, r)

/-- The token of characters that are no lexeme, which has its text from the source, and the error
about them. -/
def refuse (r : Report) (flaw : Flaw) (code : Code) (message : String)
    (first last stop : Position) : Except Fault Found := do
  let span ← Span.between first last
  let text ← span.text
  return (⟨.unknown text flaw, span⟩, stop, r.push (.coded .lexing code span message))

/-- The number `n`, which was read from `first` to `last`, with the exponent that may follow. -/
def exponent (r : Report) (n : Numeral) (first last p : Position) : Except Fault Found := do
  let letter ← p.char
  if letter = 'e' ∨ letter = 'E' then
    let next ← p.advance
    let (sign, last, stop) ← sign? p next
    match ← digits? stop with
    | some (run, last, stop) =>
      place r (.number { n with exponent := some ⟨letter, sign, run⟩ }) first last stop
    | none =>
      refuse r .noExponentDigits .malformedNumber "expected digits in the exponent" first last stop
  else place r (.number n) first last p

/-- The number that starts with the digits `whole`, which were read from `first` to `last`. -/
def number (r : Report) (whole : DigitRun) (first last p : Position) : Except Fault Found := do
  if (← p.char) = '.' then
    let next ← p.advance
    match ← digits? next with
    | some (fraction, last, stop) => exponent r ⟨whole, some fraction, none⟩ first last stop
    | none =>
      refuse r .noFractionDigits .malformedNumber "expected digits after the decimal point"
        first p next
  else exponent r ⟨whole, none, none⟩ first last p

/-- The token at a position that is neither blank nor the end, and the position behind it. -/
def next (r : Report) (p : Position) : Except Fault Found := do
  match ← mark? p with
  | some m => place r (.mark m) p p (← p.advance)
  | none =>
    if Lexeme.startsWord (← p.char) then
      let (cs, last, stop) ← readWhile Lexeme.continuesWord p p
      place r (.word (String.ofList cs)) p last stop
    else
      match ← digits? p with
      | some (whole, last, stop) => number r whole p last stop
      | none =>
        let stop ← p.advance
        refuse r .strayCharacter .strayCharacter "could not recognize the character" p p stop

/-! ## The reader goes on -/

section

variable {test : Char → Bool} {l : Lexeme} {flaw : Flaw} {code : Code} {message : String}
  {n : Numeral} {whole run : DigitRun} {last first p q stop : Position} {cs : List Char} {t : Token}
  {r r' : Report}

theorem left_of_readWhile (h : readWhile test last p = .ok (cs, q, stop)) :
    stop.left ≤ p.left ∧ (cs ≠ [] → stop.left < p.left) := by
  fun_induction readWhile test last p generalizing cs q with
  | case1 => cases h
  | case2 => cases h
  | case3 last p c _ _ next advanced ih =>
    have less := Position.left_of_advance advanced
    cases rest : readWhile test p next with
    | error fault => simp [rest, Except.map] at h
    | ok result =>
      obtain ⟨ds, r, s⟩ := result
      rw [rest] at h
      obtain ⟨rfl, rfl, rfl⟩ : c :: ds = cs ∧ r = q ∧ s = stop := by
        simpa [Except.map] using h
      have := (ih rest).1
      exact ⟨by omega, fun _ => by omega⟩
  | case4 =>
    cases h
    simp

theorem ne_nil_of_readWhile {c : Char} (h : readWhile test last p = .ok (cs, q, stop))
    (current : p.char = .ok c) (pass : test c = true) : cs ≠ [] := by
  rintro rfl
  rw [readWhile, current] at h
  dsimp only at h
  rw [if_pos pass] at h
  split at h
  · cases h
  · next next _ =>
    cases rest : readWhile test p next <;> simp [rest, Except.map] at h

theorem left_of_skipBlanks (h : skipBlanks p = .ok q) : q.left ≤ p.left := by
  fun_induction skipBlanks p with
  | case1 | case5 =>
    cases h
    exact Nat.le_refl _
  | case2 | case3 => cases h
  | case4 p _ _ _ _ next advanced ih =>
    have := Position.left_of_advance advanced
    have := ih h
    omega

theorem left_of_digits? (h : digits? p = .ok (some (run, last, stop))) : stop.left < p.left := by
  obtain ⟨⟨cs, q, s⟩, read, h⟩ := bind_eq_ok.1 h
  dsimp only at h
  split at h
  · next digits =>
    cases h
    refine (left_of_readWhile read).2 ?_
    rintro rfl
    cases digits
  · cases h

theorem stop_of_place (h : place r l first last stop = .ok (t, q, r')) : q = stop := by
  obtain ⟨span, -, h⟩ := bind_eq_ok.1 h
  cases h
  rfl

theorem stop_of_refuse (h : refuse r flaw code message first last stop = .ok (t, q, r')) :
    q = stop := by
  obtain ⟨span, -, h⟩ := bind_eq_ok.1 h
  obtain ⟨text, -, h⟩ := bind_eq_ok.1 h
  cases h
  rfl

theorem left_of_sign? {sign : Option Sign} (h : sign? first p = .ok (sign, last, stop)) :
    stop.left ≤ p.left := by
  obtain ⟨c, -, h⟩ := bind_eq_ok.1 h
  split at h
  · obtain ⟨next, advanced, h⟩ := bind_eq_ok.1 h
    cases h
    exact Nat.le_of_lt (Position.left_of_advance advanced)
  · cases h
    exact Nat.le_refl _

theorem left_of_exponent (h : exponent r n first last p = .ok (t, q, r')) : q.left ≤ p.left := by
  obtain ⟨letter, -, h⟩ := bind_eq_ok.1 h
  split at h
  · obtain ⟨next, advanced, h⟩ := bind_eq_ok.1 h
    obtain ⟨⟨sign, last', stop⟩, signed, h⟩ := bind_eq_ok.1 h
    obtain ⟨digits, read, h⟩ := bind_eq_ok.1 h
    have := Position.left_of_advance advanced
    have := left_of_sign? signed
    split at h
    · have := left_of_digits? read
      rw [stop_of_place h]
      omega
    · rw [stop_of_refuse h]
      omega
  · exact Nat.le_of_eq (congrArg Position.left (stop_of_place h))

theorem left_of_number (h : number r whole first last p = .ok (t, q, r')) : q.left ≤ p.left := by
  obtain ⟨point, -, h⟩ := bind_eq_ok.1 h
  split at h
  · obtain ⟨next, advanced, h⟩ := bind_eq_ok.1 h
    obtain ⟨digits, read, h⟩ := bind_eq_ok.1 h
    have := Position.left_of_advance advanced
    split at h
    · have := left_of_digits? read
      have := left_of_exponent h
      omega
    · rw [stop_of_refuse h]
      omega
  · exact left_of_exponent h

theorem continuesWord {c : Char} (h : Lexeme.startsWord c = true) :
    Lexeme.continuesWord c = true := by
  simp only [Lexeme.startsWord, Lexeme.continuesWord, Char.isAlphanum, Bool.or_eq_true] at h ⊢
  exact h.imp .inl id

theorem left_of_next (h : next r p = .ok (t, q, r')) : q.left < p.left := by
  obtain ⟨mark, -, h⟩ := bind_eq_ok.1 h
  dsimp only at h
  split at h
  · obtain ⟨stop, advanced, h⟩ := bind_eq_ok.1 h
    rw [stop_of_place h]
    exact Position.left_of_advance advanced
  · obtain ⟨c, current, h⟩ := bind_eq_ok.1 h
    split at h
    · next word =>
      obtain ⟨⟨cs, last, stop⟩, read, h⟩ := bind_eq_ok.1 h
      rw [stop_of_place h]
      exact (left_of_readWhile read).2 (ne_nil_of_readWhile read current (continuesWord word))
    · obtain ⟨digits, read, h⟩ := bind_eq_ok.1 h
      split at h
      · exact Nat.lt_of_le_of_lt (left_of_number h) (left_of_digits? read)
      · obtain ⟨stop, advanced, h⟩ := bind_eq_ok.1 h
        rw [stop_of_refuse h]
        exact Position.left_of_advance advanced

end

/-- The tokens from a position to the end, and what became of a report. -/
def tokensFrom (r : Report) (p : Position) : Except Fault (List Token × Report) :=
  match _hs : skipBlanks p with
  | .error fault => .error fault
  | .ok start =>
    if start.isEnd then .ok ([⟨.mark .endOfFile, .single start⟩], r)
    else
      match _hn : next r start with
      | .error fault => .error fault
      | .ok (t, stop, r) => (tokensFrom r stop).map fun (ts, r) => (t :: ts, r)
termination_by p.left
decreasing_by exact Nat.lt_of_lt_of_le (left_of_next ‹_›) (left_of_skipBlanks ‹_›)

theorem tokensFrom_eq_bind (r : Report) (p : Position) :
    tokensFrom r p = skipBlanks p >>= fun start =>
      if start.isEnd then .ok ([⟨.mark .endOfFile, .single start⟩], r)
      else next r start >>= fun (t, stop, r) =>
        (tokensFrom r stop).map fun (ts, r) => (t :: ts, r) := by
  rw [tokensFrom]
  split
  · next fault hs => rw [hs]; rfl
  · next start hs =>
    rw [hs, ok_bind]
    split
    · rfl
    · split
      · next fault hn => rw [hn]; rfl
      · next t stop r hn => rw [hn, ok_bind]

/-- The tokens of a source, and a report with the errors about them. -/
def tokens (r : Report) (s : Source) : Except Fault (List Token × Report) := tokensFrom r s.start

end Guarded

end ConstLang
