import ConstLang.Guarded.Diagnostic
import ConstLang.Proofs.Line
import ConstLang.Proofs.Span

/-!
# Diagnostics about a source are written

A diagnostic about a span of its source is written without a fault, and as the plain definition
has it. A span on one line has no newline in it, so that its columns are in order.
-/

namespace ConstLang

namespace Position

variable {s : Source} {p : Position}

theorem Of.lineBounds (h : p.Of s) : ∃ before head tail rest,
    s.text.toList = before ++ head ++ (tail ++ rest) ∧ p = s.start.after (before ++ head) ∧
    '\n' ∉ tail ∧ s.lineAround p.offset = .ok (head, tail) ∧
    s.lineBounds p.offset = .ok (Utf8.size before, p.offset + Utf8.size tail) := by
  obtain ⟨before, head, tail, rest, text, rfl, -, line, around⟩ := h.exists_lineAround
  refine ⟨before, head, tail, rest, text, rfl, line, around, ?_⟩
  have start : (s.start.after (before ++ head)).offset - Utf8.size head = Utf8.size before := by
    simp
  rw [Source.lineBounds, around, ok_bind]
  dsimp only
  rw [start]
  rfl

theorem column_after_pos (h : 0 < p.column) (cs : List Char) : 0 < (p.after cs).column := by
  induction cs generalizing p with
  | nil => exact h
  | cons c cs ih =>
    refine ih ?_
    unfold step
    split <;> exact Nat.succ_pos _

theorem Of.column_pos (h : p.Of s) : 0 < p.column := by
  obtain ⟨cs, taken, -, rfl⟩ := h
  exact column_after_pos Nat.one_pos taken

end Position

namespace Guarded

variable {s : Source} {span : Span}

theorem lineText_eq {p : Position} (h : p.Of s) :
    ∃ text, s.lineText p.offset = .ok text ∧ lineText s p.offset = .ok text := by
  obtain ⟨before, head, tail, rest, text, rfl, -, around, bounds⟩ := h.lineBounds
  refine ⟨String.ofList (head ++ tail), ?_, ?_⟩
  · rw [Source.lineText, around]
    rfl
  · have contents : s.contents.toList = before ++ (head ++ tail) ++ (rest ++ [Source.closing]) := by
      simp [Source.toList_contents, text]
    rw [lineText, bounds, ok_bind]
    simpa [Nat.add_assoc] using Source.slice_eq contents

theorem firstLineTail_eq (h : span.Of s) :
    ∃ tail, span.firstLineTail = .ok tail ∧ firstLineTail span = .ok tail ∧ tail.Of s := by
  obtain ⟨before, head, tail, rest, text, place, line, around, bounds⟩ := h.first.lineBounds
  have ahead : span.first.Ahead s (tail ++ rest) := ⟨before ++ head, text, place⟩
  have inside := h.first.offset_le
  rw [Span.firstLineTail, firstLineTail, h.source, around, bounds, ok_bind, ok_bind]
  dsimp only
  rw [ahead.slice, ok_bind, String.toList_ofList]
  rcases List.eq_nil_or_concat' tail with rfl | ⟨front, c, rfl⟩
  · exact ⟨.single span.first, rfl, rfl, Span.of_single h.first⟩
  · have front_line : '\n' ∉ front := fun mem => line (List.mem_append_left _ mem)
    have ahead : span.first.Ahead s (front ++ (c :: rest)) := by simpa using ahead
    have last := Position.after_of_not_mem span.first front_line
    rw [h.first.source] at last
    refine ⟨⟨span.first, span.first.after front⟩, ?_, ?_, Span.of_after ahead⟩
    · simp [pure, Except.pure]
    · have size : Utf8.size (front ++ [c]) - c.utf8Size = Utf8.size front := by simp
      rw [List.getLast?_concat]
      dsimp only
      have stop : span.first.offset + Utf8.size front ≤ s.endOffset := by
        have := ahead.offset_add_size
        simp only [Utf8.size_append] at this
        omega
      rw [size, ahead.slice, ok_bind, Position.make, if_pos stop, ok_bind, String.length_ofList,
        ← last]
      exact Span.between_after ..

theorem lastLineHead_eq (h : span.Of s) :
    ∃ head text, span.lastLineHead = .ok head ∧ lastLineHead span = .ok head ∧
      head.text = .ok text := by
  obtain ⟨before, head, tail, rest, text, place, -, around, bounds⟩ := h.last.lineBounds
  have line : (s.start.after before).Ahead s (head ++ (tail ++ rest)) :=
    ⟨before, by simpa using text, rfl⟩
  have last : span.last = (s.start.after before).after head :=
    place.trans (Position.after_append ..)
  have start : span.last.offset - Utf8.size head = Utf8.size before := by simp [last]
  have real := Span.of_after line
  rw [← last] at real
  obtain ⟨text, same⟩ := real.exists_text
  refine ⟨⟨⟨s, Utf8.size before, span.last.line, 1⟩, span.last⟩, text, ?_, ?_, ?_⟩
  · rw [Span.lastLineHead, h.source, around, ok_bind]
    dsimp only
    rw [start]
    rfl
  · have inside : Utf8.size before ≤ s.endOffset := by
      simpa using line.of.offset_le
    rw [lastLineHead, h.source, bounds, ok_bind]
    dsimp only
    rw [Position.make, if_pos inside, ok_bind]
    exact Span.between_eq h.last.source.symm (by simp [last])
  · rw [← same]
    simp [Span.text, Span.stopOffset, Span.source]

/-- The columns of a span on one line are in order. -/
theorem columns_le (h : span.Of s) (single : span.isSingleLine = true) :
    span.first.column ≤ span.last.column := by
  obtain ⟨cs, rest, ahead, last⟩ := h.exists_chars
  have lines := span.first.line_after cs
  rw [Span.isSingleLine, last, beq_iff_eq] at single
  have none : cs.count '\n' = 0 := by omega
  rw [last, Position.after_of_not_mem _ (List.count_eq_zero.1 none)]
  exact Nat.le_add_right ..

theorem excerpt_eq (h : span.Of s) :
    ∃ lines, Diagnostic.excerpt span = .ok lines ∧ excerpt span = .ok lines := by
  unfold Diagnostic.excerpt excerpt
  cases single : span.isSingleLine with
  | true =>
    obtain ⟨text, plain, checked⟩ := lineText_eq h.first
    have columns : ¬ (span.first.column = 0 ∨ span.last.column < span.first.column) := by
      have := h.first.column_pos
      have := columns_le h single
      omega
    simp only [h.source, plain, checked, ok_bind, if_pos, if_neg columns]
    exact ⟨_, rfl, rfl⟩
  | false =>
    obtain ⟨tail, plain_tail, checked_tail, of⟩ := firstLineTail_eq h
    obtain ⟨head, head_text, plain_head, checked_head, read_head⟩ := lastLineHead_eq h
    obtain ⟨tail_text, read_tail⟩ := of.exists_text
    simp only [plain_tail, checked_tail, plain_head, checked_head, read_tail, read_head, ok_bind]
    exact ⟨_, rfl, rfl⟩

end Guarded

/-- The span of a diagnostic is one of its source. -/
def Diagnostic.Of (s : Source) (d : Diagnostic) : Prop := ∀ span ∈ d.span, span.Of s

/-- A diagnostic about a source is written without a fault, as the plain definition has it. -/
theorem Guarded.render_eq {s : Source} {d : Diagnostic} (h : d.Of s) :
    ∃ text, d.render = .ok text ∧ Guarded.render d = .ok text := by
  unfold Diagnostic.render Diagnostic.lines Guarded.render
  cases hd : d.span with
  | none => exact ⟨_, rfl, rfl⟩
  | some span =>
    obtain ⟨lines, plain, checked⟩ := excerpt_eq (h span hd)
    simp only [plain, checked, ok_bind]
    exact ⟨_, rfl, rfl⟩

end ConstLang
