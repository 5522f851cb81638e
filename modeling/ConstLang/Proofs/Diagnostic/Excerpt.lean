import ConstLang.Proofs.Diagnostic.Message
import ConstLang.Proofs.Placement

/-!
# Excerpts underline what is reported

What is reported points at lexemes of the source, or at its end. A span of lexemes starts and ends
with a character that can be seen, so that the tildes of an excerpt stand exactly under its text: on
one line under all of it, and otherwise under what the first line and the last line have of it. Each
line of a diagnostic is one line.
-/

namespace ConstLang

open Diagnostic

/-! ## What an excerpt shows -/

/-- The excerpt of a span on one line: the line of the source, and as many tildes under it as the
span has characters. At the end of the text it is one tilde, behind the line. -/
def Diagnostic.UnderlinesLine (s : Source) (span : Span) (text : String) (excerpt : List String) :
    Prop :=
  ∃ before line behind width, s.text.toList = before ++ line ++ behind ∧
    Source.StartsLine before ∧ Source.EndsLine behind ∧ '\n' ∉ line ∧
    span.first.line = 1 + before.count '\n' ∧
    excerpt = [numbered span.first.line (String.ofList line),
      underline (span.first.column - 1) width] ∧
    text.toList = (line.drop (span.first.column - 1)).take width ∧
    if span.first.isEnd then text = "" ∧ width = 1 ∧ line.length = span.first.column - 1
    else width = text.length

/-- The excerpt of a span on several lines: what the first line has of its text, without the
terminator, and what the last line has of it, each with a tilde under every character. -/
def Diagnostic.UnderlinesEnds (span : Span) (text : String) (excerpt : List String) : Prop :=
  let tail := Source.dropReturn (text.toList.takeWhile (· ≠ '\n'))
  let head := Source.afterLastNewline text.toList
  excerpt = [numbered span.first.line (String.ofList tail ++ "..."), underline 0 tail.length,
    numbered span.last.line ("..." ++ String.ofList head), underline 3 head.length]

namespace Span

variable {s : Source} {span : Span} {before inside after : List Char}

namespace Visible

variable (h : span.Visible s before inside after)

include h

theorem first_eq : span.first = s.start.after before := by rw [h.eq]

theorem last_eq : span.last = span.first.after inside.dropLast := by
  rw [h.eq, Position.after_append]

/-- The characters of the span, with the last one apart. -/
theorem exists_concat : ∃ front c, inside = front ++ [c] ∧ c ≠ '\n' ∧ c ≠ '\r' := by
  obtain ⟨front, c, rfl⟩ := (List.eq_nil_or_concat' inside).resolve_left h.nonempty
  have visible := h.last c (by simp)
  refine ⟨front, c, rfl, ?_, ?_⟩ <;>
    · rintro rfl
      exact absurd visible (by decide)

theorem text_eq : span.text = .ok (String.ofList inside) := by
  obtain ⟨front, c, rfl, -⟩ := h.exists_concat
  have ahead : (s.start.after before).Ahead s (front ++ c :: after) :=
    ⟨before, by simpa using h.text, rfl⟩
  rw [h.eq, List.dropLast_concat, Position.after_append]
  exact text_of_char ahead

theorem isEnd_first : span.first.isEnd = false := by
  have ahead : span.first.Ahead s (inside ++ after) := ⟨before, h.text, h.first_eq⟩
  rw [ahead.isEnd, List.isEmpty_eq_false_iff]
  exact List.append_ne_nil_of_left_ne_nil h.nonempty after

theorem isSingleLine_iff : span.isSingleLine = true ↔ '\n' ∉ inside := by
  obtain ⟨front, c, rfl, other, -⟩ := h.exists_concat
  have lines := span.first.line_after front
  have count : front.count '\n' = 0 ↔ '\n' ∉ front := List.count_eq_zero
  rw [isSingleLine, h.last_eq, List.dropLast_concat, beq_iff_eq, lines, List.mem_append,
    List.mem_singleton, or_iff_left (Ne.symm other), ← count]
  omega

theorem source_eq : span.source = s := by
  rw [source, h.first_eq, Position.source_after, Position.source_start]

theorem offset_first : span.first.offset = Utf8.size before := by
  rw [h.first_eq, Position.offset_after, Position.offset_start, Nat.zero_add]

/-- On one line the columns of a span are as far apart as it has characters. -/
theorem column_last (flat : '\n' ∉ inside) :
    span.last.column + 1 = span.first.column + inside.length := by
  obtain ⟨front, c, rfl, -⟩ := h.exists_concat
  have line : '\n' ∉ front := fun mem => flat (List.mem_append_left _ mem)
  rw [h.last_eq, List.dropLast_concat, Position.after_of_not_mem _ line, List.length_append,
    List.length_singleton]
  dsimp only
  omega

/-- The excerpt of a span that has no newline. -/
theorem underlinesLine (flat : '\n' ∉ inside) :
    ∃ excerpt, Diagnostic.excerpt span = .ok excerpt ∧
      UnderlinesLine s span (String.ofList inside) excerpt := by
  obtain ⟨earlier, split, starts, head_flat⟩ := Source.exists_afterLastNewline before
  obtain ⟨rest, cut, ends, back_flat⟩ := Source.exists_line after
  have column : span.first.column = 1 + (Source.afterLastNewline before).length := by
    rw [h.first_eq, Position.column_after_start]
  have other : ∀ c ∈ inside, decide (c ≠ '\n') = true := fun c mem =>
    decide_eq_true fun same => flat (same ▸ mem)
  have last : ∀ c ∈ inside.getLast?, c ≠ '\r' := by
    rintro c mem rfl
    exact absurd (h.last '\r' mem) (by decide)
  have around := Source.lineAround_size h.text
  rw [List.takeWhile_append_of_pos other, Source.dropReturn_append last] at around
  generalize Source.afterLastNewline before = head at *
  generalize Source.dropReturn (after.takeWhile (· ≠ '\n')) = back at *
  have lineText : s.lineText span.first.offset =
      .ok (String.ofList (head ++ (inside ++ back))) := by
    rw [Source.lineText, h.offset_first, around]
    rfl
  have columns : ¬ (span.first.column = 0 ∨ span.last.column < span.first.column) := by
    have := h.column_last flat
    have := List.length_pos_iff.2 h.nonempty
    omega
  have width : span.last.column - span.first.column + 1 = inside.length := by
    have := h.column_last flat
    have := List.length_pos_iff.2 h.nonempty
    omega
  refine ⟨[numbered span.first.line (String.ofList (head ++ (inside ++ back))),
    underline (span.first.column - 1) inside.length], ?_, earlier, head ++ (inside ++ back), rest,
    inside.length, ?_, starts, ends, ?_, ?_, rfl, ?_, ?_⟩
  · unfold Diagnostic.excerpt
    simp only [h.isSingleLine_iff.2 flat, h.source_eq, lineText, ok_bind, if_pos, if_neg columns,
      width]
    rfl
  · rw [h.text, split, cut]
    simp
  · simp [head_flat, flat, back_flat]
  · rw [h.first_eq, Position.line_after, split, List.count_append,
      List.count_eq_zero.2 head_flat, Nat.add_zero]
    rfl
  · rw [column, String.toList_ofList, Nat.add_sub_cancel_left, List.drop_left, List.take_left]
  · rw [h.isEnd_first, if_neg Bool.false_ne_true, String.length_ofList]

/-- What the first line has of a span that goes on behind it. -/
theorem text_firstLineTail (wraps : '\n' ∈ inside) : ∃ tail, span.firstLineTail = .ok tail ∧
    tail.text = .ok (String.ofList (Source.dropReturn (inside.takeWhile (· ≠ '\n')))) := by
  obtain ⟨d, ds, first⟩ := List.exists_cons_of_ne_nil h.nonempty
  have visible : ∀ e, Lexeme.isBlank e = true → e ≠ d := by
    rintro e blank rfl
    rw [h.head e (by simp [first])] at blank
    contradiction
  have starts : Source.dropReturn (inside.takeWhile (· ≠ '\n')) ≠ [] := by
    have newline : d ≠ '\n' := (visible '\n' rfl).symm
    have line : (d :: ds).takeWhile (· ≠ '\n') = [d] ++ ds.takeWhile (· ≠ '\n') := by
      simp [newline]
    rw [first, line, Source.dropReturn_append (by simpa using (visible '\r' rfl).symm)]
    exact List.cons_ne_nil d _
  have around := Source.lineAround_size h.text
  rw [Source.takeWhile_newline_append wraps] at around
  obtain ⟨rest, cut, -⟩ := Source.exists_line inside
  generalize Source.dropReturn (inside.takeWhile (· ≠ '\n')) = tail at *
  obtain ⟨front, c, rfl⟩ := (List.eq_nil_or_concat' tail).resolve_left starts
  have ahead : span.first.Ahead s (front ++ c :: (rest ++ after)) :=
    ⟨before, by simp [h.text, cut], h.first_eq⟩
  refine ⟨⟨span.first, span.first.after front⟩, ?_, text_of_char ahead⟩
  rw [firstLineTail, h.source_eq, h.offset_first, around, ok_bind]
  simp [pure, Except.pure]

/-- What the last line has of a span that starts before it. -/
theorem text_lastLineHead (wraps : '\n' ∈ inside) : ∃ head, span.lastLineHead = .ok head ∧
    head.text = .ok (String.ofList (Source.afterLastNewline inside)) := by
  obtain ⟨front, c, rfl, other, -⟩ := h.exists_concat
  have mem : '\n' ∈ front := by simpa [Ne.symm other] using wraps
  have text : s.text.toList = (before ++ front) ++ (c :: after) := by simp [h.text]
  have around := Source.lineAround_size text
  rw [Source.afterLastNewline_append mem] at around
  rw [Source.afterLastNewline_concat other]
  obtain ⟨earlier, split, -⟩ := Source.exists_afterLastNewline front
  generalize Source.afterLastNewline front = head at *
  have ahead : (s.start.after (before ++ earlier)).Ahead s (head ++ c :: after) :=
    ⟨_, by simp [h.text, split], rfl⟩
  have last : span.last = (s.start.after (before ++ earlier)).after head := by
    rw [h.last_eq, h.first_eq, List.dropLast_concat, split, ← Position.after_append,
      ← Position.after_append, List.append_assoc]
  have offset : span.last.offset = Utf8.size (before ++ front) := by
    rw [last, split]
    simp [Nat.add_assoc]
  refine ⟨⟨⟨s, span.last.offset - Utf8.size head, span.last.line, 1⟩, span.last⟩, ?_, ?_⟩
  · rw [lastLineHead, h.source_eq, offset, around]
    rfl
  · have start : span.last.offset - Utf8.size head = Utf8.size (before ++ earlier) := by
      rw [offset, split]
      simp only [Utf8.size_append]
      omega
    rw [← text_of_char ahead, ← last, start]
    simp [Span.text, stopOffset, source]

/-- The excerpt of a span that has a newline. -/
theorem underlinesEnds (wraps : '\n' ∈ inside) :
    ∃ excerpt, Diagnostic.excerpt span = .ok excerpt ∧
      UnderlinesEnds span (String.ofList inside) excerpt := by
  obtain ⟨tail, cut_tail, text_tail⟩ := h.text_firstLineTail wraps
  obtain ⟨head, cut_head, text_head⟩ := h.text_lastLineHead wraps
  have several : span.isSingleLine = false := by
    rw [Bool.eq_false_iff, ne_eq, h.isSingleLine_iff, not_not]
    exact wraps
  refine ⟨_, ?_, rfl⟩
  unfold Diagnostic.excerpt
  simp only [several, cut_tail, text_tail, cut_head, text_head, ok_bind, String.length_ofList,
    String.toList_ofList]
  rfl

end Visible

/-- The excerpt of the end of the text. -/
theorem underlinesLine_end (s : Source) :
    ∃ excerpt, Diagnostic.excerpt (.single (s.start.after s.text.toList)) = .ok excerpt ∧
      UnderlinesLine s (.single (s.start.after s.text.toList)) "" excerpt := by
  have text : s.text.toList = s.text.toList ++ [] := (List.append_nil _).symm
  have around := Source.lineAround_size text
  have ahead := (Position.ahead_start s).after_all
  have column := Position.column_after_start (s := s) s.text.toList
  obtain ⟨earlier, split, starts, flat⟩ := Source.exists_afterLastNewline s.text.toList
  generalize Source.afterLastNewline s.text.toList = line at *
  have offset : (s.start.after s.text.toList).offset = Utf8.size s.text.toList := by simp
  have lineText : s.lineText (s.start.after s.text.toList).offset = .ok (String.ofList line) := by
    rw [Source.lineText, offset, around]
    simp [Source.dropReturn, bind, Except.bind, pure, Except.pure]
  have columns : ¬ ((s.start.after s.text.toList).column = 0 ∨
      (s.start.after s.text.toList).column < (s.start.after s.text.toList).column) := by
    omega
  refine ⟨[numbered (s.start.after s.text.toList).line (String.ofList line),
    underline ((s.start.after s.text.toList).column - 1) 1], ?_, earlier, line, [], 1, ?_, starts,
    .inl rfl, flat, ?_, rfl, ?_, ?_⟩
  · unfold Diagnostic.excerpt
    simp only [single, isSingleLine, source, Position.source_after, Position.source_start,
      beq_self_eq_true, lineText, ok_bind, if_pos, if_neg columns, Nat.sub_self, Nat.zero_add]
    rfl
  · simp [split]
  · rw [single, Position.line_after, split, List.count_append, List.count_eq_zero.2 flat,
      Nat.add_zero]
    rfl
  · simp [single, column]
  · rw [single, ahead.isEnd]
    exact ⟨rfl, rfl, by rw [column, Nat.add_sub_cancel_left]⟩

end Span

end ConstLang
