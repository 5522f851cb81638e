import ConstLang.Guarded.Program
import ConstLang.Proofs.Leveled.Program
import ConstLang.Proofs.Token.Tiling

/-!
# The tokens of a source keep the contracts of the parser

All spans of a source can be merged with one another, and its tokens can be quoted in messages. So
the parser with its contracts checked breaks none on the tokens of a source, and reads and reports
what it does without the checks.
-/

namespace ConstLang

/-! ## Trees of a source -/

/-- A token of `s`: its span is one of `s`, and holds the text of the lexeme unless that is the end
of the text. -/
structure Token.Sited (s : Source) (t : Token) : Prop where
  of : t.span.Of s
  text : t.isEnd = false → t.span.text = .ok t.lexeme.text

theorem Source.sited_tokens (s : Source) : ∀ t ∈ s.tokens, t.Sited s := by
  have ahead := Position.ahead_start s
  obtain ⟨parts, last, tokens, -, -, stand⟩ := s.tiles.exists_parts ahead
  intro t mem
  rw [tokens, List.mem_append, List.mem_map, List.mem_singleton] at mem
  obtain ⟨part, mem, rfl⟩ | rfl := mem
  · have stands := (stand part mem).2.1
    exact ⟨stands.of_span, fun _ => stands.text.1⟩
  · exact ⟨Span.of_single ahead.after_all.of, nofun⟩

variable {s : Source}

/-- The span of an expression is one of its source. -/
theorem Expr.of_span {e : Expr} (h : ∀ t ∈ e.tokens, t.Sited s) : e.span.Of s := by
  induction e with
  | literal n span | access name => exact (h _ (List.mem_singleton.2 rfl)).of
  | group opening inner closing =>
    exact (h (Mark.leftParen.token opening) (by simp [tokens])).of.cover
      (h (Mark.rightParen.token closing) (by simp [tokens])).of
  | unary sign span operand ih =>
    exact (h (sign.mark.token span) (by simp [tokens])).of.cover
      (ih fun t ht => h t (by simp [tokens, ht]))
  | binary op span left right ihl ihr =>
    exact (ihl fun t ht => h t (by simp [tokens, ht])).cover
      (ihr fun t ht => h t (by simp [tokens, ht]))

theorem Definition.of_span {d : Definition} (h : ∀ t ∈ d.tokens, t.Sited s) : d.span.Of s :=
  (h d.name.token (by simp [tokens])).of.cover
    (h (Mark.semicolon.token d.semicolon) (by simp [tokens])).of

namespace Guarded

theorem merge_eq {a b : Span} (ha : a.Of s) (hb : b.Of s) : merge a b = .ok (a.cover b) := by
  have first : b.first.source = a.first.source := hb.first.source.trans ha.first.source.symm
  have last : b.last.source = a.last.source := hb.last.source.trans ha.last.source.symm
  unfold merge Position.compare
  rw [if_pos first, if_pos last]
  simp only [ok_bind, Nat.compare_eq_lt, Nat.compare_eq_gt]
  rfl

theorem describe_eq {t : Token} (h : t.Sited s) : describe t = .ok t.lexeme.describe := by
  obtain ⟨l, span⟩ := t
  cases l with
  | mark m => rfl
  | word text => rfl
  | number n =>
    have text : span.text = .ok n.text := h.text rfl
    simp only [describe, text, ok_bind]
    rfl
  | unknown text flaw =>
    have same : span.text = .ok text := by
      simpa [Lexeme.text, Lexeme.chars] using h.text rfl
    simp only [describe, same, ok_bind]
    rfl

theorem syntaxDiagnostic_eq {e : SyntaxError} (h : e.found.Sited s) :
    syntaxDiagnostic e = .ok e.diagnostic := by
  obtain ⟨obstacle, found⟩ := e
  cases obstacle with
  | nesting => rfl
  | unmet wanted =>
    simp only [syntaxDiagnostic, describe_eq h, ok_bind]
    rfl

theorem kept_contracts (s : Source) : contracts.Kept (·.Of s) := ⟨Span.Of.cover, merge_eq⟩

theorem takes_of_sited {t : Token} (h : t.Sited s) : contracts.Takes (·.Of s) t :=
  ⟨h.of, fun _ => syntaxDiagnostic_eq h⟩

/-- On the tokens of a source no contract is broken. -/
theorem parse_eq {ts : List Token} (sited : ∀ t ∈ ts, t.Sited s) (r : Report) :
    parse r ts = r.parse ts := by
  rw [r.parse_eq]
  exact Leveled.parse_eq (kept_contracts s) (fun t mem => takes_of_sited (sited t mem)) r

end Guarded

end ConstLang
