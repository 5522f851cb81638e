import ConstLang.Guarded.Compilation
import ConstLang.Proofs.Guarded.Diagnostic
import ConstLang.Proofs.Guarded.Program
import ConstLang.Proofs.Resolution.Origin

/-!
# What is reported about a program lies in its source

Whatever comes up while a program of a source is resolved is about what stands in the program, and
so about spans of that source. A number that a message quotes stands where the message points to.
-/

namespace ConstLang

/-- The spans of an issue are spans of `s`, and the number it quotes stands there. -/
def Issue.Sited (s : Source) : Issue → Prop
  | builtinName name | mismatch name _ _ | undefinedName name => name.span.Of s
  | redeclared name other | notYetResolved name other => name.span.Of s ∧ other.span.Of s
  | numberAsType n span | exponentOutOfRange n span | literalMisfit n span _ _ =>
    span.Of s ∧ span.text = .ok n.text
  | signedType _ span _ | operationAsType _ span _ | divisionByZero span
  | metatypeVariable _ span | unknownType _ span | unstorableType _ _ span
  | valueMisfit _ span _ _ | rounded _ _ span _ => span.Of s

/-- An issue is reported without a fault, as the plain definition has it. -/
theorem Guarded.issueDiagnostics_eq {s : Source} {i : Issue} (h : i.Sited s) :
    issueDiagnostics i = .ok i.diagnostics := by
  cases i with
  | numberAsType n span | exponentOutOfRange n span | literalMisfit n span type misfit =>
    simp only [issueDiagnostics, h.2, ok_bind]
    rfl
  | _ => rfl

theorem Issue.Sited.diagnostics {s : Source} {i : Issue} (h : i.Sited s) :
    ∀ d ∈ i.diagnostics, d.Of s := by
  cases i <;> simp_all [Sited, Issue.diagnostics, main, remark?, Diagnostic.Of, Diagnostic.coded,
    Diagnostic.note]

namespace Program

variable {source : Source} {p : Program}

theorem Mentions.of_span {name : Name} (h : p.Mentions name)
    (sited : ∀ t ∈ p.tokens, t.Sited source) : name.span.Of source :=
  (sited _ (List.mem_append_left _ h)).of

theorem Quotes.sited {n : Numeral} {span : Span} (h : p.Quotes n span)
    (sited : ∀ t ∈ p.tokens, t.Sited source) : Token.Sited source ⟨.number n, span⟩ :=
  sited _ (List.mem_append_left _ ((tokens_isInfix h).subset (List.mem_singleton_self _)))

theorem Places.of_span {span : Span} (h : p.Places span) (sited : ∀ t ∈ p.tokens, t.Sited source) :
    span.Of source := by
  obtain ⟨e, mem, rfl⟩ := h
  exact Expr.of_span fun t ht => sited t (List.mem_append_left _ ((tokens_isInfix mem).subset ht))

/-- What comes up in a program of a source is about that source. -/
theorem sited_issues {r : Resolution} (h : ∀ t ∈ p.tokens, t.Sited source)
    (hr : p.resolve = .ok r) : ∀ i ∈ r.issues, i.Sited source := by
  intro i mem
  have about := (from_of_resolve hr).2 i mem
  cases i with
  | builtinName | mismatch | undefinedName => exact Mentions.of_span about h
  | redeclared | notYetResolved => exact ⟨about.1.of_span h, about.2.of_span h⟩
  | numberAsType | exponentOutOfRange | literalMisfit =>
    have quoted := Quotes.sited about h
    exact ⟨quoted.of, quoted.text rfl⟩
  | signedType | operationAsType | divisionByZero | valueMisfit | rounded =>
    exact Places.of_span about h
  | metatypeVariable | unknownType | unstorableType => exact about.2.of_span h

end Program

end ConstLang
