import ConstLang.Token

/-!
# Positions of a text

A position belongs to a source if it is reached from the start of the source over characters of its
text. `p.Ahead s cs` says so, and that the characters `cs` of the text are still ahead. At such a
position the operations that have a contract keep it.
-/

namespace ConstLang

namespace Utf8

theorem size_eq_zero {cs : List Char} : size cs = 0 ↔ cs = [] := by
  cases cs with
  | nil => simp
  | cons c cs =>
    have := c.utf8Size_pos
    simp only [size_cons, reduceCtorEq, iff_false]
    omega

/-- Of two beginnings of one text, the one that is not larger is a beginning of the other. -/
theorem append_of_size_le {as bs cs ds : List Char} (h : as ++ bs = cs ++ ds)
    (le : size as ≤ size cs) : ∃ es, cs = as ++ es ∧ bs = es ++ ds := by
  obtain ⟨es, hc, hb⟩ | ⟨es, ha, hd⟩ := List.append_eq_append_iff.1 h
  · exact ⟨es, hc, hb⟩
  · have empty : es = [] := by
      rw [ha, size_append] at le
      exact size_eq_zero.1 (by omega)
    subst empty
    exact ⟨[], by simpa using ha.symm, by simpa using hd.symm⟩

end Utf8

namespace Source

variable (s : Source)

theorem toList_contents : s.contents.toList = s.text.toList ++ [closing] := String.toList_push ..

theorem endOffset_eq : s.endOffset = Utf8.size s.text.toList := Utf8.utf8ByteSize_eq s.text

end Source

namespace Position

variable {s : Source} {p q : Position} {c : Char} {cs ds : List Char}

theorem after_append (p : Position) (cs ds : List Char) :
    p.after (cs ++ ds) = (p.after cs).after ds := List.foldl_append

@[simp] theorem source_step (p : Position) (c : Char) : (p.step c).source = p.source := by
  unfold step
  split <;> rfl

@[simp] theorem offset_step (p : Position) (c : Char) :
    (p.step c).offset = p.offset + c.utf8Size := by
  unfold step
  split <;> rfl

@[simp] theorem source_after (p : Position) (cs : List Char) : (p.after cs).source = p.source := by
  induction cs generalizing p with
  | nil => rfl
  | cons c cs ih => rw [after_cons, ih, source_step]

@[simp] theorem offset_after (p : Position) (cs : List Char) :
    (p.after cs).offset = p.offset + Utf8.size cs := by
  induction cs generalizing p with
  | nil => rfl
  | cons c cs ih => rw [after_cons, ih, offset_step, Utf8.size_cons, Nat.add_assoc]

@[simp] theorem source_start (s : Source) : s.start.source = s := rfl

@[simp] theorem offset_start (s : Source) : s.start.offset = 0 := rfl

theorem line_after (p : Position) (cs : List Char) :
    (p.after cs).line = p.line + cs.count '\n' := by
  induction cs generalizing p with
  | nil => rfl
  | cons c cs ih =>
    rw [after_cons, ih, List.count_cons]
    by_cases newline : c = '\n'
    · simp [step, newline]
      omega
    · simp [step, newline]

/-- Without a newline only the offset and the column move. -/
theorem after_of_not_mem (p : Position) (h : '\n' ∉ cs) :
    p.after cs = ⟨p.source, p.offset + Utf8.size cs, p.line, p.column + cs.length⟩ := by
  induction cs generalizing p with
  | nil => rfl
  | cons c cs ih =>
    simp only [List.mem_cons, not_or] at h
    rw [after_cons, ih _ h.2, step, if_neg (Ne.symm h.1)]
    simp only [Utf8.size_cons, List.length_cons, mk.injEq, true_and]
    omega

/-! ## Positions of a source -/

/-- `p` is the position of `s` that has the characters `cs` of the text ahead of it. -/
def Ahead (s : Source) (p : Position) (cs : List Char) : Prop :=
  ∃ before, s.text.toList = before ++ cs ∧ p = s.start.after before

/-- `p` is a position of `s`. -/
def Of (s : Source) (p : Position) : Prop := ∃ cs, p.Ahead s cs

theorem ahead_start (s : Source) : s.start.Ahead s s.text.toList := ⟨[], rfl, rfl⟩

namespace Ahead

theorem of (h : p.Ahead s cs) : p.Of s := ⟨cs, h⟩

theorem source (h : p.Ahead s cs) : p.source = s := by
  obtain ⟨before, -, rfl⟩ := h
  simp

theorem after (h : p.Ahead s (cs ++ ds)) : (p.after cs).Ahead s ds := by
  obtain ⟨before, text, rfl⟩ := h
  exact ⟨before ++ cs, by simp [text], (after_append ..).symm⟩

theorem step (h : p.Ahead s (c :: cs)) : (p.step c).Ahead s cs :=
  after (show p.Ahead s ([c] ++ cs) from h)

/-- Behind all that is ahead is the end of the text. -/
theorem after_all (h : p.Ahead s cs) : (p.after cs).Ahead s [] :=
  after (show p.Ahead s (cs ++ []) by rwa [List.append_nil])

theorem offset_add_size (h : p.Ahead s cs) : p.offset + Utf8.size cs = s.endOffset := by
  obtain ⟨before, text, rfl⟩ := h
  simp [Source.endOffset_eq, text]

theorem isEnd (h : p.Ahead s cs) : p.isEnd = cs.isEmpty := by
  have total := h.offset_add_size
  have nothing : cs = [] ↔ Utf8.size cs = 0 := Utf8.size_eq_zero.symm
  rw [Bool.eq_iff_iff, Position.isEnd, h.source, beq_iff_eq, List.isEmpty_iff, nothing]
  omega

/-- The contents split at a position of the source. -/
theorem splitAt? (h : p.Ahead s cs) : ∃ before, s.text.toList = before ++ cs ∧
    Utf8.splitAt? p.offset s.contents.toList = some (before, cs ++ [Source.closing]) := by
  obtain ⟨before, text, rfl⟩ := h
  refine ⟨before, text, ?_⟩
  rw [Source.toList_contents, text, List.append_assoc, offset_after, offset_start, Nat.zero_add]
  exact Utf8.splitAt?_size_append ..

theorem char (h : p.Ahead s (c :: cs)) : p.char = .ok c := by
  obtain ⟨before, -, split⟩ := h.splitAt?
  rw [Position.char, h.source, Source.charAt, split]
  rfl

/-- At the end of the text stands the closing character. -/
theorem char_nil (h : p.Ahead s []) : p.char = .ok Source.closing := by
  obtain ⟨before, -, split⟩ := h.splitAt?
  rw [Position.char, h.source, Source.charAt, split]
  rfl

theorem advance (h : p.Ahead s (c :: cs)) : p.advance = .ok (p.step c) := by
  rw [Position.advance, h.isEnd, h.char]
  rfl

end Ahead

/-- Of two positions of a source, the one that is not later is before the other, or there. -/
theorem Of.after_of_le (hp : p.Of s) (hq : q.Of s) (le : p.offset ≤ q.offset) :
    ∃ cs ds, p.Ahead s (cs ++ ds) ∧ q = p.after cs := by
  obtain ⟨ps, before, text, rfl⟩ := hp
  obtain ⟨ds, later, text', rfl⟩ := hq
  simp only [offset_after, offset_start, Nat.zero_add] at le
  obtain ⟨cs, rfl, rfl⟩ := Utf8.append_of_size_le (text.symm.trans text') le
  exact ⟨cs, ds, ⟨before, text, rfl⟩, after_append ..⟩

theorem Of.source (h : p.Of s) : p.source = s := h.choose_spec.source

theorem Of.offset_le (h : p.Of s) : p.offset ≤ s.endOffset := by
  obtain ⟨cs, ahead⟩ := h
  have := ahead.offset_add_size
  omega

end Position

end ConstLang
