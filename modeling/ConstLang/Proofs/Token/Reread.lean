import ConstLang.Proofs.Token.Solid

/-!
# A lexeme is read again from its characters

What the first lexeme of a text is depends on its own characters alone, as long as none of those
behind it could go on with it: it is read again in front of a blank, or at the end of a text. So two
lexemes with the same characters are one, and the texts of tokens say which lexemes they are.
-/

namespace ConstLang

namespace Lexeme

/-- There are no characters, or the first one is blank. -/
def Boundary (rest : List Char) : Prop := ∀ d ∈ rest.head?, isBlank d = true

theorem Boundary.separates {rest : List Char} (h : Boundary rest) :
    ∀ d ∈ rest.head?, Separates d := fun d mem => separates_of_isBlank (h d mem)

/-- The lexeme that is read from the characters `cs` behind `start` takes some of them, and is read
again from those alone. -/
def Rereads (read : List Char → Lexeme) (start cs : List Char) : Prop :=
  ∃ taken, taken <+: cs ∧ (read cs).chars = start ++ taken ∧
    ∀ rest, Boundary rest → read (taken ++ rest) = read cs

/-- What is taken starts as the characters that it is taken from do, or is followed at once by the
boundary. -/
theorem Boundary.head {rest taken cs : List Char} (h : Boundary rest) (start : taken <+: cs)
    {P : Char → Prop} (separates : ∀ d, Separates d → P d) (next : ∀ d ∈ cs.head?, P d) :
    ∀ d ∈ (taken ++ rest).head?, P d := by
  obtain ⟨more, rfl⟩ := start
  intro d mem
  cases taken with
  | nil => exact separates d (h.separates d mem)
  | cons e es => exact next d mem

variable {c : Char} {cs rest : List Char}

/-! ## Numbers -/

/-- No digit stands behind those that are split off. -/
theorem head_of_split? {run : DigitRun} (h : DigitRun.split? cs = some (run, rest)) :
    ∀ d ∈ rest.head?, d.isDigit = false := by
  obtain ⟨-, rfl⟩ := DigitRun.split?_eq_some h
  intro d mem
  have stop := List.head?_dropWhile_not Char.isDigit cs
  rwa [Option.mem_def.1 mem] at stop

theorem split?_of_boundary (h : Boundary rest) : DigitRun.split? rest = none := by
  rw [DigitRun.split?_eq_none_iff]
  cases rest with
  | nil => rfl
  | cons d ds =>
    have digit : ¬ d.isDigit = true := by simp [(h.separates d rfl).digit]
    rw [List.takeWhile_cons_of_neg digit]

theorem withExponent_of_head (n : Numeral) (other : ∀ d ∈ cs.head?, ¬ (d = 'e' ∨ d = 'E')) :
    withExponent n cs = number n := by
  cases cs with
  | nil => rfl
  | cons d ds => rw [withExponent, if_neg (other d rfl)]

theorem numberAt_of_head (whole : DigitRun) (other : ∀ d ∈ cs.head?, d ≠ '.') :
    numberAt whole cs = withExponent ⟨whole, none, none⟩ cs := by
  unfold numberAt
  split
  · exact absurd rfl (other '.' rfl)
  · rfl

theorem rereads_withExponent {n : Numeral} (plain : n.exponent = none) (cs : List Char) :
    Rereads (withExponent n) n.chars cs := by
  by_cases letters : ∃ d ∈ cs.head?, d = 'e' ∨ d = 'E'
  · obtain ⟨letter, first, e⟩ := letters
    obtain ⟨more, rfl⟩ : ∃ more, cs = letter :: more := ⟨_, List.eq_cons_of_mem_head? first⟩
    rcases signed : Sign.ofChars more with ⟨sign, behind⟩
    obtain rfl := Sign.append_of_ofChars signed
    cases split : DigitRun.split? behind with
    | none =>
      -- The letter and the sign belong to the flawed lexeme, although no digit follows them.
      refine ⟨letter :: (sign.map Sign.symbol).toList, ?_, ?_, fun rest blank => ?_⟩
      · exact ⟨behind, rfl⟩
      · simp [withExponent, e, signed, split, chars]
      · have unsigned : ∀ d ∈ rest.head?, d ≠ '+' ∧ d ≠ '-' := fun d mem =>
          (blank.separates d mem).sign
        simp only [List.cons_append, withExponent, if_pos e, signed, split,
          Sign.ofChars_of_head sign unsigned, split?_of_boundary blank]
    | some parts =>
      obtain ⟨run, after⟩ := parts
      obtain rfl := DigitRun.append_of_split? split
      refine ⟨(Exponent.mk letter sign run).chars, ?_, ?_, fun rest blank => ?_⟩
      · exact ⟨after, by simp [Exponent.chars, Exponent.digits]⟩
      · simp [withExponent, e, signed, split, chars, Numeral.chars_withExponent plain]
      · obtain ⟨d, ds, digits, digit⟩ := run.exists_cons
        have again : Sign.ofChars ((sign.map Sign.symbol).toList ++ (run.text.toList ++ rest)) =
            (sign, run.text.toList ++ rest) := by
          rw [digits, List.cons_append, Sign.ofChars_append sign digit]
        have cut := run.split?_append fun d mem => (blank.separates d mem).digit
        simp only [Exponent.chars, Exponent.digits, List.cons_append, List.append_assoc,
          withExponent, if_pos e, signed, split, again, cut]
  · have other : ∀ d ∈ cs.head?, ¬ (d = 'e' ∨ d = 'E') := fun d mem e => letters ⟨d, mem, e⟩
    have read := withExponent_of_head n other
    refine ⟨[], List.nil_prefix, by rw [read, chars, List.append_nil], fun rest blank => ?_⟩
    rw [read]
    exact withExponent_of_head n fun d mem => (blank.separates d mem).letter

theorem rereads_numberAt (whole : DigitRun) (cs : List Char) :
    Rereads (numberAt whole) whole.text.toList cs := by
  by_cases point : '.' ∈ cs.head?
  · obtain ⟨more, rfl⟩ : ∃ more, cs = '.' :: more := ⟨_, List.eq_cons_of_mem_head? point⟩
    cases split : DigitRun.split? more with
    | none =>
      refine ⟨['.'], ⟨more, rfl⟩, by simp [numberAt, split, chars], fun rest blank => ?_⟩
      simp only [List.cons_append, List.nil_append, numberAt, split, split?_of_boundary blank]
    | some parts =>
      obtain ⟨fraction, behind⟩ := parts
      obtain ⟨taken, start, written, again⟩ :=
        rereads_withExponent (n := ⟨whole, some fraction, none⟩) rfl behind
      have stop := head_of_split? split
      obtain rfl := DigitRun.append_of_split? split
      refine ⟨'.' :: (fraction.text.toList ++ taken), ?_, ?_, fun rest blank => ?_⟩
      · obtain ⟨after, rfl⟩ := start
        exact ⟨after, by simp⟩
      · simp [numberAt, split, written]
      · have next := blank.head start (fun _ => Separates.digit) stop
        have cut := fraction.split?_append next
        simp only [List.cons_append, List.append_assoc, numberAt, split, cut, again rest blank]
  · have other : ∀ d ∈ cs.head?, d ≠ '.' := fun d mem same => point (same ▸ mem)
    have read := numberAt_of_head whole other
    obtain ⟨taken, start, written, again⟩ :=
      rereads_withExponent (n := ⟨whole, none, none⟩) rfl cs
    refine ⟨taken, start, by rw [read, written, Numeral.chars_run], fun rest blank => ?_⟩
    have next := blank.head start (fun _ => Separates.point) other
    rw [read, numberAt_of_head whole next, again rest blank]

/-! ## Lexemes -/

theorem rereads_first (c : Char) (cs : List Char) : Rereads (first c) [c] cs := by
  cases mark : Mark.ofChar? c with
  | some m =>
    refine ⟨[], List.nil_prefix, ?_, fun rest blank => ?_⟩
    · simp [first, mark, chars, chars_of_ofChar? mark]
    · simp [first, mark]
  | none =>
    cases word : startsWord c with
    | true =>
      refine ⟨cs.takeWhile continuesWord, List.takeWhile_prefix _, ?_, fun rest blank => ?_⟩
      · simp [first, mark, word, chars]
      · have all : ∀ d ∈ cs.takeWhile continuesWord, continuesWord d = true := fun d mem =>
          List.mem_takeWhile_imp mem
        have stop : ∀ d ∈ rest.head?, continuesWord d = false := fun d mem =>
          (blank.separates d mem).word
        simp only [first, mark, word, ↓reduceIte, (cut_append all stop).1]
    | false =>
      cases split : DigitRun.split? (c :: cs) with
      | none =>
        have digit : c.isDigit = false := by simpa using DigitRun.split?_eq_none_iff.1 split
        refine ⟨[], List.nil_prefix, by simp [first, mark, word, split, chars], fun rest _ => ?_⟩
        have again : DigitRun.split? (c :: rest) = none := by
          simp [DigitRun.split?_eq_none_iff, digit]
        simp [first, mark, word, split, again]
      | some parts =>
        -- The first digit is `c` itself, so that the others are taken with the rest of the number.
        obtain ⟨whole, behind⟩ := parts
        obtain ⟨taken, start, written, again⟩ := rereads_numberAt whole behind
        obtain ⟨d, ds, run, -⟩ := whole.exists_cons
        have digits := DigitRun.append_of_split? split
        rw [run, List.cons_append, List.cons.injEq] at digits
        obtain ⟨rfl, rfl⟩ := digits
        refine ⟨ds ++ taken, (List.prefix_append_right_inj ds).2 start, ?_, fun rest blank => ?_⟩
        · simp [first, mark, word, split, written, run]
        · have stop := head_of_split? split
          have cut := whole.split?_append (blank.head start (fun _ => Separates.digit) stop)
          rw [run, List.cons_append] at cut
          simp [first, mark, word, split, cut, again rest blank]

/-- Two lexemes with the same characters are one. -/
theorem first_eq_of_chars {d : Char} {ds : List Char}
    (same : (first c cs).chars = (first d ds).chars) : first c cs = first d ds := by
  obtain ⟨taken, -, written, again⟩ := rereads_first c cs
  obtain ⟨others, -, written', again'⟩ := rereads_first d ds
  rw [written, written', List.singleton_append, List.singleton_append, List.cons.injEq] at same
  obtain ⟨rfl, rfl⟩ := same
  rw [← again [] nofun, ← again' [] nofun]

end Lexeme

/-! ## Tokens -/

/-- A lexeme of a text: the end mark, or the first one of what is left. -/
inductive Lexeme.Written : Lexeme → Prop
  | endMark : Written (.mark .endOfFile)
  | first (c : Char) (cs : List Char) : Written (first c cs)

theorem Lexeme.Written.eq_of_chars {l m : Lexeme} (hl : l.Written) (hm : m.Written)
    (same : l.chars = m.chars) : l = m := by
  have visible (c : Char) (cs : List Char) :
      (Lexeme.first c cs).chars ≠ (mark .endOfFile).chars := by
    obtain ⟨taken, -, written, -⟩ := rereads_first c cs
    rw [written]
    exact List.cons_ne_nil _ _
  cases hl with
  | endMark =>
    cases hm with
    | endMark => rfl
    | first d ds => exact absurd same.symm (visible d ds)
  | first c cs =>
    cases hm with
    | endMark => exact absurd same (visible c cs)
    | first d ds => exact first_eq_of_chars same

theorem Token.written_ofChars (p : Position) (cs : List Char) :
    ∀ t ∈ ofChars p cs, t.lexeme.Written := by
  fun_induction ofChars p cs with
  | case1 p =>
    intro t mem
    rw [List.mem_singleton.1 mem]
    exact .endMark
  | case2 p c cs blank ih => exact ih
  | case3 p c cs blank l ih => exact List.forall_mem_cons.2 ⟨.first c cs, ih⟩

/-- The texts of tokens say which lexemes they are. -/
theorem Source.lexemes_eq_of_texts {s t : Source}
    (same : s.tokens.map (fun t => t.lexeme.text) = t.tokens.map fun t => t.lexeme.text) :
    s.tokens.map Token.lexeme = t.tokens.map Token.lexeme := by
  refine List.ext_getElem (by simpa using congrArg List.length same) fun i hi hj => ?_
  rw [List.getElem_map, List.getElem_map]
  refine Lexeme.Written.eq_of_chars (Token.written_ofChars _ _ _ (List.getElem_mem _))
    (Token.written_ofChars _ _ _ (List.getElem_mem _)) ?_
  rw [List.length_map] at hi hj
  have texts := List.getElem_of_eq same (by simpa using hi)
  exact String.ofList_injective (by simpa [Lexeme.text] using texts)

end ConstLang
