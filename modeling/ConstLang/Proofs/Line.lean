import ConstLang.Proofs.Position
import Mathlib.Data.List.TakeWhile
import Mathlib.Data.List.Basic

/-!
# Lines of a text

The line around a position is cut out of the text where it says: it has no newline, what is in front
of it ends with one unless the text starts there, and what is behind it starts with the terminator
unless the text ends there. The line and the column of a position count the newlines in front of
that line and the characters of the line in front of the position.
-/

namespace ConstLang

namespace Source

/-- Characters of a text in front of one of its lines. -/
def StartsLine (before : List Char) : Prop := ∀ c ∈ before.getLast?, c = '\n'

/-- Characters of a text behind one of its lines. A carriage return alone at the end of the text is
taken for a terminator too. -/
def EndsLine (behind : List Char) : Prop :=
  behind = [] ∨ behind = ['\r'] ∨ ['\n'] <+: behind ∨ ['\r', '\n'] <+: behind

/-- What is left of characters from the first newline on. -/
theorem eq_nil_or_newline (cs : List Char) :
    cs.dropWhile (· ≠ '\n') = [] ∨ ∃ more, cs.dropWhile (· ≠ '\n') = '\n' :: more := by
  have stopped := List.head?_dropWhile_not (fun c => decide (c ≠ '\n')) cs
  cases rest : cs.dropWhile (· ≠ '\n') with
  | nil => exact .inl rfl
  | cons c more =>
    rw [rest] at stopped
    have newline : c = '\n' := by simpa using stopped
    exact .inr ⟨more, by rw [newline]⟩

/-- The characters after the last newline have none, and end what they are taken from. -/
theorem exists_afterLastNewline (cs : List Char) : ∃ before,
    cs = before ++ afterLastNewline cs ∧ StartsLine before ∧ '\n' ∉ afterLastNewline cs := by
  refine ⟨(cs.reverse.dropWhile (· ≠ '\n')).reverse, ?_, fun c last => ?_, fun mem => ?_⟩
  · rw [afterLastNewline, ← List.reverse_append, List.takeWhile_append_dropWhile,
      List.reverse_reverse]
  · rw [List.getLast?_reverse] at last
    obtain none | ⟨more, newline⟩ := eq_nil_or_newline cs.reverse
    · rw [none] at last
      cases last
    · rw [newline] at last
      exact (Option.some.inj last).symm
  · simpa using List.mem_takeWhile_imp (List.mem_reverse.1 mem)

/-- The characters up to a newline have none, without a carriage return at their end either. -/
theorem exists_line (cs : List Char) : ∃ rest,
    cs = dropReturn (cs.takeWhile (· ≠ '\n')) ++ rest ∧ EndsLine rest ∧
      '\n' ∉ dropReturn (cs.takeWhile (· ≠ '\n')) := by
  have line : ∀ c ∈ cs.takeWhile (· ≠ '\n'), c ≠ '\n' := fun c hc => by
    simpa using List.mem_takeWhile_imp hc
  unfold dropReturn
  split
  · next last =>
    obtain ⟨front, same⟩ := List.getLast?_eq_some_iff.1 last
    refine ⟨'\r' :: cs.dropWhile (· ≠ '\n'), ?_, ?_, fun mem => ?_⟩
    · rw [same, List.dropLast_concat, List.append_cons, ← same, List.takeWhile_append_dropWhile]
    · obtain none | ⟨more, newline⟩ := eq_nil_or_newline cs
      · exact .inr (.inl (by rw [none]))
      · exact .inr (.inr (.inr ⟨more, by rw [newline]; rfl⟩))
    · exact line _ ((List.dropLast_prefix _).subset mem) rfl
  · refine ⟨_, List.takeWhile_append_dropWhile.symm, ?_, fun mem => line _ mem rfl⟩
    obtain none | ⟨more, newline⟩ := eq_nil_or_newline cs
    · exact .inl none
    · exact .inr (.inr (.inl ⟨more, newline.symm⟩))

theorem takeWhile_newline_append {cs : List Char} (mem : '\n' ∈ cs) (ds : List Char) :
    (cs ++ ds).takeWhile (· ≠ '\n') = cs.takeWhile (· ≠ '\n') := by
  induction cs with
  | nil => contradiction
  | cons c cs ih =>
    rw [List.cons_append, List.takeWhile_cons, List.takeWhile_cons]
    split
    · next other =>
      obtain rfl | mem := List.mem_cons.1 mem
      · contradiction
      · rw [ih mem]
    · rfl

theorem afterLastNewline_append {ds : List Char} (mem : '\n' ∈ ds) (cs : List Char) :
    afterLastNewline (cs ++ ds) = afterLastNewline ds := by
  rw [afterLastNewline, List.reverse_append, takeWhile_newline_append (List.mem_reverse.2 mem)]
  rfl

theorem afterLastNewline_concat {c : Char} (other : c ≠ '\n') (cs : List Char) :
    afterLastNewline (cs ++ [c]) = afterLastNewline cs ++ [c] := by
  simp [afterLastNewline, other]

theorem dropReturn_append {cs : List Char} (last : ∀ c ∈ cs.getLast?, c ≠ '\r')
    (ds : List Char) : dropReturn (cs ++ ds) = cs ++ dropReturn ds := by
  cases ds with
  | nil =>
    have kept : ¬ cs.getLast? = some '\r' := fun same => last '\r' same rfl
    simp [dropReturn, kept]
  | cons d ds =>
    unfold dropReturn
    rw [List.getLast?_append_of_ne_nil _ (List.cons_ne_nil d ds)]
    split
    · exact List.dropLast_append_of_ne_nil (List.cons_ne_nil d ds)
    · rfl

/-- The line around a place of the text. -/
theorem lineAround_size {s : Source} {before after : List Char}
    (text : s.text.toList = before ++ after) : s.lineAround (Utf8.size before) =
      .ok (afterLastNewline before, dropReturn (after.takeWhile (· ≠ '\n'))) := by
  rw [lineAround, text, Utf8.splitAt?_size_append]

end Source

/-- A column counts the characters of the line before it. -/
theorem Position.column_after_start {s : Source} (before : List Char) :
    (s.start.after before).column = 1 + (Source.afterLastNewline before).length := by
  obtain ⟨front, split, starts, line⟩ := Source.exists_afterLastNewline before
  have first : (s.start.after front).column = 1 := by
    obtain rfl | ⟨more, c, rfl⟩ := List.eq_nil_or_concat' front
    · rfl
    · obtain rfl : c = '\n' := starts c (by simp)
      rw [after_append]
      rfl
  rw [split, after_append, after_of_not_mem _ line, first, ← split]

/-- The line around a position of a source: what is before the position and what is behind. -/
theorem Position.Of.exists_lineAround {s : Source} {p : Position} (h : p.Of s) :
    ∃ before head tail rest, s.text.toList = before ++ head ++ (tail ++ rest) ∧
      p = s.start.after (before ++ head) ∧ '\n' ∉ head ∧ '\n' ∉ tail ∧
      s.lineAround p.offset = .ok (head, tail) := by
  obtain ⟨cs, taken, text, rfl⟩ := h
  obtain ⟨before, split, -, head⟩ := Source.exists_afterLastNewline taken
  obtain ⟨rest, line, -, tail⟩ := Source.exists_line cs
  refine ⟨before, _, _, rest, ?_, by rw [← split], head, tail, ?_⟩
  · rw [← split, ← line, text]
  · rw [offset_after, offset_start, Nat.zero_add, Source.lineAround_size text]

end ConstLang
