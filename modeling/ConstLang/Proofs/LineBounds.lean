import ConstLang.Proofs.Lexeme
import ConstLang.Proofs.Line

/-!
# The bounds of a line

Every place of a text is in a line of it: among the characters of the line, in the terminator behind
them, or at the end of the text. The bounds of that line are found from its places, with two
exceptions. At the newline behind a carriage return, the carriage return is taken for a character of
the line; and where a carriage return ends the text, it is taken for a terminator by the places in
front of it.
-/

namespace ConstLang

namespace Source

variable {cs rest front : List Char}

theorem takeWhile_newline (plain : '\n' ∉ cs) (stop : rest = [] ∨ ∃ more, rest = '\n' :: more) :
    (cs ++ rest).takeWhile (· ≠ '\n') = cs := by
  refine (cut_append (fun c mem => ?_) ?_).1
  · exact decide_eq_true fun same => plain (same ▸ mem)
  · rcases stop with rfl | ⟨more, rfl⟩ <;> simp

theorem afterLastNewline_of_startsLine (starts : StartsLine front) (plain : '\n' ∉ cs) :
    afterLastNewline (front ++ cs) = cs := by
  have stop : front.reverse = [] ∨ ∃ more, front.reverse = '\n' :: more := by
    obtain rfl | ⟨more, c, rfl⟩ := List.eq_nil_or_concat' front
    · exact .inl rfl
    · obtain rfl : c = '\n' := starts c (by simp)
      exact .inr ⟨more.reverse, by simp⟩
  rw [afterLastNewline, List.reverse_append, takeWhile_newline (by simpa using plain) stop,
    List.reverse_reverse]

theorem dropReturn_concat (cs : List Char) : dropReturn (cs ++ ['\r']) = cs := by
  simp [dropReturn]

theorem dropReturn_of_getLast? (last : cs.getLast? ≠ some '\r') : dropReturn cs = cs :=
  if_neg last

end Source

open Source

/-- A text with one of its lines cut out: what is in front of the line, its own characters, what
ends it and what is behind. -/
structure Line where
  front : List Char
  chars : List Char
  terminator : List Char
  behind : List Char
deriving DecidableEq

namespace Line

/-- A line starts where the text does or behind a newline, and goes on to the next newline or to the
end of the text. The newline ends it, together with a carriage return in front of the newline. -/
structure Of (l : Line) (text : List Char) : Prop where
  text_eq : text = l.front ++ (l.chars ++ l.terminator) ++ l.behind
  starts : StartsLine l.front
  plain : '\n' ∉ l.chars
  ends : l.terminator = ['\r', '\n'] ∨
    (l.terminator = ['\n'] ∧ l.chars.getLast? ≠ some '\r') ∨
    (l.terminator = [] ∧ l.behind = [])

/-- The offset of the first character. -/
def start (l : Line) : ℕ := Utf8.size l.front

/-- The offset behind the last character. -/
def stop (l : Line) : ℕ := l.start + Utf8.size l.chars

/-- The offset is in the line or in its terminator; that of the end of the text is in the last
line. -/
def Covers (l : Line) (offset : ℕ) : Prop :=
  l.start ≤ offset ∧
    (offset < l.stop + Utf8.size l.terminator ∨ l.terminator = [] ∧ offset ≤ l.stop)

/-- The offset is at the newline behind a carriage return, or in front of a carriage return that
ends the text. -/
def Misread (l : Line) (offset : ℕ) : Prop :=
  (l.terminator = ['\r', '\n'] ∧ offset = l.stop + 1) ∨
  (l.terminator = [] ∧ l.chars.getLast? = some '\r' ∧ offset < l.stop)

/-- The characters of the terminator in front of its newline. -/
def returns (l : Line) : List Char := l.terminator.takeWhile (· ≠ '\n')

variable {l : Line} {before after : List Char}

/-! ## The line of a place -/

/-- Characters without a newline, at the start of a line, are those of the line and of its
terminator in front of the next newline. -/
theorem exists_of {front cs rest : List Char} (starts : StartsLine front) (plain : '\n' ∉ cs)
    (stops : rest = [] ∨ ∃ more, rest = '\n' :: more) :
    ∃ l : Line, l.Of (front ++ cs ++ rest) ∧ l.front = front ∧
      ((l.terminator = [] ∧ l.chars = cs) ∨ l.chars ++ l.terminator = cs ++ ['\n']) := by
  rcases stops with rfl | ⟨more, rfl⟩
  · exact ⟨⟨front, cs, [], []⟩, ⟨by simp, starts, plain, .inr (.inr ⟨rfl, rfl⟩)⟩, rfl,
      .inl ⟨rfl, rfl⟩⟩
  · by_cases last : cs.getLast? = some '\r'
    · obtain ⟨chars, rfl⟩ := List.getLast?_eq_some_iff.1 last
      exact ⟨⟨front, chars, ['\r', '\n'], more⟩,
        ⟨by simp, starts, fun mem => plain (List.mem_append_left _ mem), .inl rfl⟩, rfl,
        .inr (by simp)⟩
    · exact ⟨⟨front, cs, ['\n'], more⟩, ⟨by simp, starts, plain, .inr (.inl ⟨rfl, last⟩)⟩, rfl,
        .inr rfl⟩

/-- Every place of a text is in one of its lines. -/
theorem exists_covers (before after : List Char) :
    ∃ l : Line, l.Of (before ++ after) ∧ l.Covers (Utf8.size before) := by
  obtain ⟨front, split, starts, head⟩ := exists_afterLastNewline before
  have tail : '\n' ∉ after.takeWhile (· ≠ '\n') := fun mem => by
    simpa using List.mem_takeWhile_imp mem
  have joined : after.takeWhile (· ≠ '\n') ++ after.dropWhile (· ≠ '\n') = after :=
    List.takeWhile_append_dropWhile
  obtain ⟨l, of, rfl, line⟩ := exists_of starts
    (fun mem => (List.mem_append.1 mem).elim head tail) (eq_nil_or_newline after)
  refine ⟨l, ?_, ?_⟩
  · rwa [← List.append_assoc, ← split, List.append_assoc, joined] at of
  · have place := congrArg Utf8.size split
    rw [Utf8.size_append] at place
    unfold Covers stop start
    rcases line with ⟨none_behind, chars⟩ | ended
    · have size := congrArg Utf8.size chars
      rw [Utf8.size_append] at size
      exact ⟨by omega, .inr ⟨none_behind, by omega⟩⟩
    · have size := congrArg Utf8.size ended
      have newline : Utf8.size ['\n'] = 1 := rfl
      simp only [Utf8.size_append, newline] at size
      omega

/-- A place in a line has a part of the line in front of it and the rest behind it. -/
theorem Of.exists_split (of : l.Of (before ++ after)) (covers : l.Covers (Utf8.size before)) :
    ∃ part rest, before = l.front ++ part ∧ l.chars ++ l.terminator = part ++ rest ∧
      after = rest ++ l.behind ∧ (rest = [] → l.terminator = []) := by
  obtain ⟨low, high⟩ := covers
  unfold stop start at *
  obtain ⟨part, rfl, line⟩ := Utf8.append_of_size_le
    ((List.append_assoc _ _ _).symm.trans of.text_eq.symm) low
  rw [Utf8.size_append] at high
  have within : Utf8.size part ≤ Utf8.size (l.chars ++ l.terminator) := by
    rw [Utf8.size_append]
    rcases high with inside | ⟨-, last⟩ <;> omega
  obtain ⟨rest, split, behind⟩ := Utf8.append_of_size_le line.symm within
  refine ⟨part, rest, rfl, split, behind, fun done => ?_⟩
  have size := congrArg Utf8.size split
  rw [done, List.append_nil, Utf8.size_append] at size
  rcases high with inside | ⟨none_behind, -⟩
  · omega
  · exact none_behind

theorem Of.terminator_cases (of : l.Of before) :
    (l.terminator = [] ∧ l.returns = [] ∧ l.behind = []) ∨ l.terminator = l.returns ++ ['\n'] := by
  unfold returns
  rcases of.ends with ended | ⟨ended, -⟩ | ⟨ended, last⟩
  · exact .inr (by rw [ended]; rfl)
  · exact .inr (by rw [ended]; rfl)
  · exact .inl ⟨ended, by rw [ended]; rfl, last⟩

theorem Of.plain_returns (of : l.Of before) : '\n' ∉ l.chars ++ l.returns := fun mem => by
  rcases List.mem_append.1 mem with mem | mem
  · exact of.plain mem
  · simpa using List.mem_takeWhile_imp mem

/-- What the search for newlines finds around a place in a line. -/
theorem Of.exists_around (of : l.Of (before ++ after)) (covers : l.Covers (Utf8.size before)) :
    ∃ head tail, before = l.front ++ head ∧ head ++ tail = l.chars ++ l.returns ∧
      afterLastNewline before = head ∧ after.takeWhile (· ≠ '\n') = tail := by
  obtain ⟨head, rest, rfl, split, rfl, done⟩ := of.exists_split covers
  obtain ⟨tail, line, stop⟩ : ∃ tail, head ++ tail = l.chars ++ l.returns ∧
      ∃ more, rest ++ l.behind = tail ++ more ∧ (more = [] ∨ ∃ cs, more = '\n' :: cs) := by
    rcases of.terminator_cases with ⟨none_behind, no_return, last⟩ | ended
    · rw [none_behind, List.append_nil] at split
      exact ⟨rest, by rw [no_return, List.append_nil, split], [], by rw [last], .inl rfl⟩
    · obtain rfl | ⟨tail, c, rfl⟩ := List.eq_nil_or_concat' rest
      · simp [done rfl] at ended
      · rw [ended, ← List.append_assoc, ← List.append_assoc] at split
        obtain ⟨line, newline⟩ := List.append_inj' split rfl
        obtain rfl : '\n' = c := List.singleton_inj.1 newline
        exact ⟨tail, line.symm, _, List.append_assoc _ _ _, .inr ⟨_, rfl⟩⟩
  obtain ⟨more, rest_eq, stop⟩ := stop
  have plain := of.plain_returns
  rw [← line] at plain
  have head_plain : '\n' ∉ head := fun mem => plain (List.mem_append_left _ mem)
  have tail_plain : '\n' ∉ tail := fun mem => plain (List.mem_append_right _ mem)
  refine ⟨head, tail, rfl, line, afterLastNewline_of_startsLine of.starts head_plain, ?_⟩
  rw [rest_eq, takeWhile_newline tail_plain stop]

/-! ## Its bounds -/

variable {s : Source}

/-- The bounds that are found from a place and the text between them. -/
theorem Of.exists_bounds (text : s.text.toList = before ++ after) (of : l.Of s.text.toList)
    (covers : l.Covers (Utf8.size before)) :
    ∃ head tail, Utf8.size before = l.start + Utf8.size head ∧ head ++ tail = l.chars ++ l.returns ∧
      s.lineBounds (Utf8.size before) =
        .ok (l.start, l.start + Utf8.size (head ++ dropReturn tail)) ∧
      s.lineText (Utf8.size before) = .ok (String.ofList (head ++ dropReturn tail)) := by
  rw [text] at of
  obtain ⟨head, tail, split, line, taken, left⟩ := of.exists_around covers
  have around : s.lineAround (Utf8.size before) = .ok (head, dropReturn tail) := by
    rw [lineAround_size text, taken, left]
  have place : Utf8.size before = l.start + Utf8.size head := by
    rw [split, Utf8.size_append]
    rfl
  refine ⟨head, tail, place, line, ?_, ?_⟩
  · rw [lineBounds, around, ok_bind, Utf8.size_append]
    exact congrArg Except.ok (Prod.ext (by dsimp only; omega) (by dsimp only; omega))
  · rw [lineText, around, ok_bind]
    rfl

variable {text head tail : List Char}

/-- Without a carriage return in the terminator, one that is dropped is the last character of the
line. -/
theorem stop_eq_of_getLast? (none_before : l.returns = [])
    (line : head ++ tail = l.chars ++ l.returns) (last : tail.getLast? = some '\r') :
    l.chars.getLast? = some '\r' ∧ l.start + Utf8.size (head ++ dropReturn tail) + 1 = l.stop := by
  obtain ⟨front, rfl⟩ := List.getLast?_eq_some_iff.1 last
  rw [none_before, List.append_nil, ← List.append_assoc] at line
  have size := congrArg Utf8.size line
  have one : Utf8.size ['\r'] = 1 := rfl
  rw [Utf8.size_append, one] at size
  rw [dropReturn_concat, stop]
  exact ⟨by rw [← line, List.getLast?_concat], by omega⟩

/-- What is read around a place is the line, but for the two exceptions. -/
theorem Of.read_eq (of : l.Of text) (line : head ++ tail = l.chars ++ l.returns)
    (fine : ¬ l.Misread (l.start + Utf8.size head)) : head ++ dropReturn tail = l.chars := by
  have without_return (none_before : l.returns = [])
      (kept : tail.getLast? = some '\r' → l.chars.getLast? ≠ some '\r') :
      head ++ dropReturn tail = l.chars := by
    have last : tail.getLast? ≠ some '\r' := fun last =>
      kept last (stop_eq_of_getLast? none_before line last).1
    rw [dropReturn_of_getLast? last, line, none_before, List.append_nil]
  rcases of.ends with ended | ⟨ended, last⟩ | ⟨ended, -⟩
  · have before : l.returns = ['\r'] := by rw [returns, ended]; rfl
    rw [before] at line
    obtain rfl | ⟨front, c, rfl⟩ := List.eq_nil_or_concat' tail
    · rw [List.append_nil] at line
      exact absurd (.inl ⟨ended, by rw [line, stop, Utf8.size_append]; rfl⟩) fine
    · rw [← List.append_assoc] at line
      obtain ⟨same, last⟩ := List.append_inj' line rfl
      rw [last, dropReturn_concat, same]
  · exact without_return (by rw [returns, ended]; rfl) fun _ => last
  · have none_before : l.returns = [] := by rw [returns, ended]; rfl
    refine without_return none_before fun last also => fine (.inr ⟨ended, also, ?_⟩)
    have shorter := (stop_eq_of_getLast? none_before line last).2
    rw [Utf8.size_append] at shorter
    omega

/-- Where the line is misread, what is read ends behind it or before its last character. -/
theorem stop_of_misread (line : head ++ tail = l.chars ++ l.returns)
    (misread : l.Misread (l.start + Utf8.size head)) :
    l.start + Utf8.size (head ++ dropReturn tail) =
      if l.terminator = [] then l.stop - 1 else l.stop + 1 := by
  have size := congrArg Utf8.size line
  simp only [Utf8.size_append] at size
  rcases misread with ⟨ended, last⟩ | ⟨ended, last, inside⟩
  · have before : Utf8.size l.returns = 1 := by rw [returns, ended]; rfl
    have none_ahead : tail = [] := Utf8.size_eq_zero.1 (by unfold stop at last; omega)
    have nothing : dropReturn [] = [] := rfl
    rw [none_ahead, nothing, List.append_nil, last, ended]
    rfl
  · have none_before : l.returns = [] := by rw [returns, ended]; rfl
    have ahead : tail ≠ [] := by
      rintro rfl
      rw [none_before, Utf8.size_nil] at size
      unfold stop at inside
      omega
    rw [← List.append_nil l.chars, ← none_before, ← line,
      List.getLast?_append_of_ne_nil _ ahead] at last
    rw [if_pos ended, ← (stop_eq_of_getLast? none_before line last).2, Nat.add_sub_cancel]

end Line

namespace Source

open Line

/-- The bounds of a line, and its text, are found from every place of it and of its terminator:
neither depends on the place, and a carriage return is left out where a newline follows. There are
two exceptions. At a newline behind a carriage return, the bounds end there, one place behind the
line; and in front of a carriage return that ends the text, they end one place before the line
does. -/
theorem lineBounds_exact {s : Source} {before after : List Char}
    (text : s.text.toList = before ++ after) :
    (∃ l : Line, l.Of s.text.toList ∧ l.Covers (Utf8.size before)) ∧
    ∀ l : Line, l.Of s.text.toList → l.Covers (Utf8.size before) →
      (¬ l.Misread (Utf8.size before) →
        s.lineBounds (Utf8.size before) = .ok (l.start, l.stop) ∧
        s.lineText (Utf8.size before) = .ok (String.ofList l.chars)) ∧
      (l.Misread (Utf8.size before) → s.lineBounds (Utf8.size before) =
        .ok (l.start, if l.terminator = [] then l.stop - 1 else l.stop + 1)) := by
  refine ⟨text ▸ exists_covers before after, fun l of covers => ?_⟩
  obtain ⟨head, tail, place, line, bounds, read⟩ := of.exists_bounds text covers
  rw [bounds, read, place]
  refine ⟨fun fine => ?_, fun misread => ?_⟩
  · rw [of.read_eq line fine]
    exact ⟨rfl, rfl⟩
  · rw [stop_of_misread line misread]

/-- A text with a carriage return inside its first line, in front of the newline that ends it, and
at the end. -/
def mixed : Source := ⟨0, "", "a\rb\r\nx\r"⟩

theorem lineBounds_exact_mixed :
    mixed.text.toList = ['a', '\r', 'b'] ++ ['\r', '\n', 'x', '\r'] ∧
    mixed.lineBounds 3 = .ok (0, 3) ∧ mixed.lineText 3 = .ok "a\rb" ∧
    mixed.text.toList = ['a', '\r', 'b', '\r'] ++ ['\n', 'x', '\r'] ∧
    mixed.lineBounds 4 = .ok (0, 4) ∧
    mixed.text.toList = ['a', '\r', 'b', '\r', '\n'] ++ ['x', '\r'] ∧
    mixed.lineBounds 5 = .ok (5, 6) := by
  have first : Line.Of ⟨[], ['a', '\r', 'b'], ['\r', '\n'], ['x', '\r']⟩ mixed.text.toList :=
    ⟨by decide, nofun, by decide, .inl rfl⟩
  have last : Line.Of ⟨['a', '\r', 'b', '\r', '\n'], ['x', '\r'], [], []⟩ mixed.text.toList :=
    ⟨by decide, fun c mem => (Option.some.inj mem).symm, by decide, .inr (.inr ⟨rfl, rfl⟩)⟩
  have at_return : mixed.text.toList = ['a', '\r', 'b'] ++ ['\r', '\n', 'x', '\r'] := by decide
  have at_newline : mixed.text.toList = ['a', '\r', 'b', '\r'] ++ ['\n', 'x', '\r'] := by decide
  have at_last : mixed.text.toList = ['a', '\r', 'b', '\r', '\n'] ++ ['x', '\r'] := by decide
  obtain ⟨-, found⟩ := lineBounds_exact at_return
  obtain ⟨bounds, text⟩ := (found _ first ⟨by decide, .inl (by decide)⟩).1
    (by rintro (⟨-, newline⟩ | ⟨ended, -⟩) <;> contradiction)
  obtain ⟨-, found⟩ := lineBounds_exact at_newline
  have behind := (found _ first ⟨by decide, .inl (by decide)⟩).2 (.inl ⟨rfl, rfl⟩)
  obtain ⟨-, found⟩ := lineBounds_exact at_last
  have before := (found _ last ⟨by decide, .inr ⟨rfl, by decide⟩⟩).2 (.inr ⟨rfl, rfl, by decide⟩)
  exact ⟨at_return, bounds, text, at_newline, behind, at_last, before⟩

end Source

end ConstLang
