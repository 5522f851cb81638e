import ConstLang.Proofs.Position

/-!
# Spans of a text

A span belongs to a source if both of its ends do and the first is not after the last. Such a span
has a text, and the smallest span around two of them is one again.
-/

namespace ConstLang

/-- A part of the contents between the offsets where it starts and stops. -/
theorem Source.slice_eq {s : Source} {before inside after : List Char}
    (h : s.contents.toList = before ++ inside ++ after) :
    s.slice (Utf8.size before) (Utf8.size (before ++ inside)) = .ok (String.ofList inside) := by
  have total : Utf8.size s.contents.toList = s.endOffset + closing.utf8Size := by
    simp [toList_contents, endOffset_eq]
  rw [h] at total
  simp only [Utf8.size_append] at total
  have bounds : Utf8.size before ≤ Utf8.size (before ++ inside) ∧
      Utf8.size (before ++ inside) ≤ s.endOffset + closing.utf8Size := by
    rw [Utf8.size_append]
    omega
  rw [slice, if_pos bounds, h, Utf8.splitAt?_size_append]
  dsimp only
  rw [Utf8.splitAt?_size_append]

/-- The text between two positions, the second of which is reached from the first over `cs`. -/
theorem Position.Ahead.slice {s : Source} {p : Position} {cs ds : List Char}
    (h : p.Ahead s (cs ++ ds)) :
    s.slice p.offset (p.offset + Utf8.size cs) = .ok (String.ofList cs) := by
  obtain ⟨before, text, rfl⟩ := h
  have contents : s.contents.toList = before ++ cs ++ (ds ++ [Source.closing]) := by
    simp [Source.toList_contents, text]
  simpa using Source.slice_eq contents

/-- The contents from a position on, with the closing character. -/
theorem Position.Ahead.slice_contents {s : Source} {p : Position} {cs : List Char}
    (h : p.Ahead s cs) : s.slice p.offset (s.endOffset + Source.closing.utf8Size) =
      .ok (String.ofList (cs ++ [Source.closing])) := by
  obtain ⟨before, text, rfl⟩ := h
  have contents : s.contents.toList = before ++ (cs ++ [Source.closing]) ++ [] := by
    simp [Source.toList_contents, text]
  have stop : s.endOffset + Source.closing.utf8Size =
      Utf8.size (before ++ (cs ++ [Source.closing])) := by
    simp [Source.endOffset_eq, text, Nat.add_assoc]
  simpa [stop] using Source.slice_eq contents

namespace Span

variable {s : Source} {span t : Span} {p : Position} {c : Char} {cs rest : List Char}

/-- The ends of a span are positions of `s`, the first not after the last. -/
structure Of (s : Source) (span : Span) : Prop where
  first : span.first.Of s
  last : span.last.Of s
  ordered : span.first.offset ≤ span.last.offset

theorem between_eq {q : Position} (same : p.source = q.source) (le : p.offset ≤ q.offset) :
    between p q = .ok ⟨p, q⟩ := by
  rw [between, if_neg fun h => h same, if_neg (Nat.not_lt.2 le)]

theorem between_after (p : Position) (cs : List Char) :
    between p (p.after cs) = .ok ⟨p, p.after cs⟩ := between_eq (by simp) (by simp)

theorem Of.source (h : span.Of s) : span.source = s := h.first.source

theorem of_single (h : p.Of s) : (single p).Of s := ⟨h, h, Nat.le_refl _⟩

theorem of_after (h : p.Ahead s (cs ++ rest)) : (Span.mk p (p.after cs)).Of s :=
  ⟨h.of, h.after.of, by simp⟩

/-- The characters of a span of `s`: those from its first position to its last, that of the last
position included unless the text ends there. -/
theorem Of.exists_chars (h : span.Of s) : ∃ cs rest, span.first.Ahead s (cs ++ rest) ∧
    span.last = span.first.after cs := by
  exact h.first.after_of_le h.last h.ordered

theorem Of.cover (h : span.Of s) (ht : t.Of s) : (span.cover t).Of s := by
  unfold Span.cover
  have := h.ordered
  have := ht.ordered
  constructor
  · dsimp only
    split
    · exact ht.first
    · exact h.first
  · dsimp only
    split
    · exact ht.last
    · exact h.last
  · dsimp only
    split <;> split <;> omega

theorem stopOffset_of_char (h : p.Ahead s (cs ++ c :: rest)) :
    (Span.mk p (p.after cs)).stopOffset = .ok (p.offset + Utf8.size (cs ++ [c])) := by
  have last := h.after
  rw [stopOffset, last.isEnd, last.char]
  simp [Except.map, Nat.add_assoc]

theorem stopOffset_of_end (h : p.Ahead s cs) :
    (Span.mk p (p.after cs)).stopOffset = .ok (p.offset + Utf8.size cs) := by
  have last := (show p.Ahead s (cs ++ []) by simpa using h).after
  rw [stopOffset, last.isEnd, source, h.source, h.offset_add_size]
  rfl

/-- The text of a span up to a character includes it. -/
theorem text_of_char (h : p.Ahead s (cs ++ c :: rest)) :
    (Span.mk p (p.after cs)).text = .ok (String.ofList (cs ++ [c])) := by
  have ahead : p.Ahead s ((cs ++ [c]) ++ rest) := by simpa using h
  rw [text, stopOffset_of_char h, ok_bind, source, h.source]
  exact ahead.slice

/-- The text of a span up to the end has all that is ahead. -/
theorem text_of_end (h : p.Ahead s cs) :
    (Span.mk p (p.after cs)).text = .ok (String.ofList cs) := by
  have ahead : p.Ahead s (cs ++ []) := by simpa using h
  rw [text, stopOffset_of_end h, ok_bind, source, h.source]
  exact ahead.slice

theorem Of.exists_text (h : span.Of s) : ∃ text, span.text = .ok text := by
  obtain ⟨first, last⟩ := span
  obtain ⟨cs, rest, ahead, same⟩ := h.exists_chars
  dsimp only at ahead same
  subst same
  cases rest with
  | nil => exact ⟨_, text_of_end (by simpa using ahead)⟩
  | cons c rest => exact ⟨_, text_of_char ahead⟩

end Span

end ConstLang
