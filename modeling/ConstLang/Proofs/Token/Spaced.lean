import ConstLang.Proofs.Token.Reread

/-!
# Lexemes that are written again

The lexemes of a text, flawed ones included, can be written out with blanks between them, and are
read again from there. What a lexeme is was decided in front of whatever came next in the text; that
it is the same in front of a blank is what `Lexeme.rereads_first` says.
-/

namespace ConstLang

/-- Words one after another: any blanks behind each of them, and at least one between two. -/
inductive Spaced : List (List Char) → List Char → Prop
  | nil : Spaced [] []
  | cons {word gap rest : List Char} {words : List (List Char)} :
      (∀ c ∈ gap, Lexeme.isBlank c = true) → (words ≠ [] → gap ≠ []) → Spaced words rest →
      Spaced (word :: words) (word ++ (gap ++ rest))

/-- What stands behind a word is the end or a blank. -/
theorem Spaced.boundary {gap rest : List Char} {words : List (List Char)}
    (blanks : ∀ c ∈ gap, Lexeme.isBlank c = true) (apart : words ≠ [] → gap ≠ [])
    (h : Spaced words rest) : Lexeme.Boundary (gap ++ rest) := by
  cases gap with
  | cons c gap =>
    rintro d ⟨rfl⟩
    exact blanks _ List.mem_cons_self
  | nil =>
    cases h with
    | nil => exact nofun
    | cons => exact absurd rfl (apart (List.cons_ne_nil _ _))

namespace Token

theorem ofChars_blanks {gap : List Char} (blanks : ∀ c ∈ gap, Lexeme.isBlank c = true)
    (p : Position) (cs : List Char) : ofChars p (gap ++ cs) = ofChars (p.after gap) cs := by
  induction gap generalizing p with
  | nil => rfl
  | cons c gap ih =>
    obtain ⟨blank, others⟩ := List.forall_mem_cons.1 blanks
    rw [List.cons_append, ofChars, if_pos blank, ih others, Position.after_cons]

/-- A lexeme with the end or a blank behind it is the first one to be read. -/
theorem ofChars_lexeme {l : Lexeme} (written : l.Written) (solid : l.Solid)
    (visible : l ≠ .mark .endOfFile) {rest : List Char} (h : Lexeme.Boundary rest) (p : Position) :
    ofChars p (l.chars ++ rest) = place p l :: ofChars (p.after l.chars) rest := by
  cases written with
  | endMark => exact absurd rfl visible
  | first c cs =>
    obtain ⟨taken, -, chars, again⟩ := Lexeme.rereads_first c cs
    have sound : ¬ Lexeme.isBlank c = true := by
      simp [solid c (by simp [chars])]
    have behind : (taken ++ rest).drop ((Lexeme.first c cs).chars.length - 1) = rest := by
      simp [chars]
    have split : (Lexeme.first c cs).chars ++ rest = c :: (taken ++ rest) := by simp [chars]
    rw [split, ofChars, if_neg sound]
    dsimp only
    rw [again rest h, behind]

/-- The lexemes that are read from spaced words are those that the words were written from. -/
theorem lexemes_ofChars_spaced {ls : List Lexeme} {rest : List Char}
    (h : Spaced (ls.map Lexeme.chars) rest) (written : ∀ l ∈ ls, l.Written)
    (solid : ∀ l ∈ ls, l.Solid) (visible : ∀ l ∈ ls, l ≠ .mark .endOfFile) (p : Position) :
    (ofChars p rest).map lexeme = ls ++ [.mark .endOfFile] := by
  induction ls generalizing rest p with
  | nil =>
    cases h
    rw [ofChars]
    rfl
  | cons l ls ih =>
    cases h with
    | cons blanks apart spaced =>
      obtain ⟨written, writtens⟩ := List.forall_mem_cons.1 written
      obtain ⟨solid, solids⟩ := List.forall_mem_cons.1 solid
      obtain ⟨visible, visibles⟩ := List.forall_mem_cons.1 visible
      have boundary := Spaced.boundary blanks apart spaced
      rw [ofChars_lexeme written solid visible boundary, ofChars_blanks blanks, List.map_cons,
        ih spaced writtens solids visibles]
      rfl

end Token

/-- The code of what is reported about a token with this lexeme. -/
def Lexeme.code? : Lexeme → Option Code
  | unknown _ flaw => some flaw.code
  | _ => none

theorem Token.code_diagnostic? (t : Token) :
    t.diagnostic?.map Diagnostic.code = t.lexeme.code?.map some := by
  obtain ⟨l, span⟩ := t
  cases l <;> rfl

namespace Source

variable (s : Source)

theorem codes_lexicalErrors :
    s.lexicalErrors.map Diagnostic.code =
      ((s.tokens.map Token.lexeme).filterMap Lexeme.code?).map some := by
  rw [lexicalErrors, List.map_filterMap, List.filterMap_map, List.map_filterMap]
  exact congrArg (List.filterMap · s.tokens) (funext Token.code_diagnostic?)

/-- The lexemes of a source, the end mark left out. -/
def lexemes : List Lexeme := (s.tokens.filter fun t => !t.isEnd).map Token.lexeme

/-- The end mark is the last token, and no other one is. -/
theorem map_lexeme_tokens : s.tokens.map Token.lexeme = s.lexemes ++ [.mark .endOfFile] := by
  obtain ⟨parts, last, tokens, -, -, stand⟩ := s.tiles.exists_parts (Position.ahead_start s)
  have inner : ∀ t ∈ parts.map Prod.snd, (!t.isEnd) = true := by
    rw [List.forall_mem_map]
    intro part mem
    have nonempty := (stand part mem).2.1.text.2
    by_contra isEnd
    have endOfFile : part.2.lexeme = .mark .endOfFile := by simpa [Token.isEnd] using isEnd
    exact nonempty (by rw [endOfFile]; rfl)
  rw [lexemes, tokens, List.filter_append, List.filter_eq_self.2 inner, List.map_append]
  simp [Token.isEnd, Mark.token]

theorem mem_lexemes {l : Lexeme} (h : l ∈ s.lexemes) :
    l.Written ∧ l.Solid ∧ l ≠ .mark .endOfFile := by
  obtain ⟨t, mem, rfl⟩ := List.mem_map.1 h
  obtain ⟨mem, inner⟩ := List.mem_filter.1 mem
  exact ⟨Token.written_ofChars _ _ t mem, s.solid_tokens t mem, by simpa [Token.isEnd] using inner⟩

/-- If the lexemes of a source are written one after another, with one or more blanks between two of
them, they are read again: the lexemes are the same, and so are the codes of the errors. -/
theorem lexemes_of_spaced {t : Source} {front rest : List Char}
    (blanks : ∀ c ∈ front, Lexeme.isBlank c = true)
    (spaced : Spaced (s.lexemes.map Lexeme.chars) rest) (text : t.text.toList = front ++ rest) :
    t.tokens.map Token.lexeme = s.tokens.map Token.lexeme ∧
      t.lexicalErrors.map Diagnostic.code = s.lexicalErrors.map Diagnostic.code := by
  have same : t.tokens.map Token.lexeme = s.tokens.map Token.lexeme := by
    rw [map_lexeme_tokens s, tokens, text, Token.ofChars_blanks blanks]
    exact Token.lexemes_ofChars_spaced spaced (fun _ mem => (s.mem_lexemes mem).1)
      (fun _ mem => (s.mem_lexemes mem).2.1) (fun _ mem => (s.mem_lexemes mem).2.2) _
  exact ⟨same, by rw [codes_lexicalErrors, codes_lexicalErrors, same]⟩

/-- A number that stops too early, directly in front of a word, and a stray character. -/
def crowded : Source := ⟨0, "", "1e+x$"⟩

/-- The same lexemes on lines of their own. -/
def loose : Source := ⟨1, "", "\t1e+\r\nx \n$"⟩

theorem lexemes_of_spaced_crowded :
    Spaced (crowded.lexemes.map Lexeme.chars) "1e+\r\nx \n$".toList ∧
    loose.text.toList = ['\t'] ++ "1e+\r\nx \n$".toList ∧
    loose.tokens.map Token.lexeme = crowded.tokens.map Token.lexeme ∧
    loose.lexicalErrors.map Diagnostic.code = crowded.lexicalErrors.map Diagnostic.code ∧
    crowded.lexicalErrors.map Diagnostic.code = [some .malformedNumber, some .strayCharacter] := by
  have words : crowded.lexemes.map Lexeme.chars = [['1', 'e', '+'], ['x'], ['$']] := by
    decide +kernel
  have last : Spaced [['$']] ['$'] := .cons (List.forall_mem_nil _) (absurd rfl) .nil
  have two : Spaced [['x'], ['$']] ['x', ' ', '\n', '$'] :=
    @Spaced.cons ['x'] [' ', '\n'] _ _ (by simp [Lexeme.isBlank])
      (fun _ => List.cons_ne_nil _ _) last
  have spaced : Spaced (crowded.lexemes.map Lexeme.chars) "1e+\r\nx \n$".toList := by
    rw [words]
    exact @Spaced.cons ['1', 'e', '+'] ['\r', '\n'] _ _ (by simp [Lexeme.isBlank])
      (fun _ => List.cons_ne_nil _ _) two
  have text : loose.text.toList = ['\t'] ++ "1e+\r\nx \n$".toList := by decide +kernel
  obtain ⟨lexemes, codes⟩ := lexemes_of_spaced crowded (by simp [Lexeme.isBlank]) spaced text
  exact ⟨spaced, text, lexemes, codes, by decide +kernel⟩

end Source

end ConstLang
