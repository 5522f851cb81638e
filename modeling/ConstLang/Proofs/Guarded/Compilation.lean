import ConstLang.Proofs.Compilation
import ConstLang.Proofs.Guarded.Resolution
import ConstLang.Proofs.Program.Spans

/-!
# No text breaks a contract

Every source compiles with all contracts checked, and comes to what `Report.compile` has. What is
reported is about spans of the source, so that it can be written.
-/

namespace ConstLang

theorem Token.of_diagnostic? {s : Source} {t : Token} {d : Diagnostic} (h : t.Sited s)
    (hd : t.diagnostic? = some d) : d.Of s := by
  obtain ⟨flaw, -, rfl⟩ := Option.map_eq_some_iff.1 hd
  exact fun span same => Option.some.inj same ▸ h.of

theorem SyntaxError.of_diagnostic {s : Source} {e : SyntaxError} (h : e.found.Sited s) :
    e.diagnostic.Of s := by
  obtain ⟨obstacle, found⟩ := e
  cases obstacle <;> exact fun span same => Option.some.inj same ▸ h.of

/-- A program of a source has its places from the tokens. -/
theorem Program.sited_of_tokens {s : Source} {p : Program}
    (h : ofTokens s.tokens = .ok (.ok p)) :
    ∀ t ∈ p.tokens, t.Sited s := fun t mem => s.sited_tokens t ((tokens_isPrefix h).subset mem)

namespace Guarded

variable {s : Source}

theorem mapM_issueDiagnostics {is : List Issue} (h : ∀ i ∈ is, i.Sited s) :
    is.mapM issueDiagnostics = .ok (is.map Issue.diagnostics) := by
  induction is with
  | nil => rfl
  | cons i is ih =>
    obtain ⟨first, others⟩ := List.forall_mem_cons.1 h
    rw [List.mapM_cons, issueDiagnostics_eq first, ih others]
    rfl

theorem resolve_eq {p : Program} (h : ∀ t ∈ p.tokens, t.Sited s) :
    ∃ result added, (∀ d ∈ added, d.Of s) ∧
      ∀ r : Report, r.resolve p = .ok (result, r.pushAll added) ∧
        resolve r p = .ok (result, r.pushAll added) := by
  obtain ⟨complete, issues, resolved⟩ := p.exists_resolve_eq
  have sited := Program.sited_issues h resolved
  refine ⟨if complete then .ok ⟨p, ⟨(Interpreter.run p.definitions).vars⟩⟩ else .error .resolving,
    issues.flatMap Issue.diagnostics, fun d hd => ?_, fun r => ⟨?_, ?_⟩⟩
  · obtain ⟨i, hi, hd⟩ := List.mem_flatMap.1 hd
    exact (sited i hi).diagnostics d hd
  · simp only [Report.resolve, resolved, ok_bind]
    rfl
  · simp only [resolve, resolved, mapM_issueDiagnostics sited, ok_bind, List.flatMap_def]
    rfl

theorem compile_of_errors (h : s.lexicalErrors ≠ []) (r : Report) :
    compile r s = .ok (.error .lexing, r.pushAll s.lexicalErrors) := by
  rw [compile, tokens_eq, ok_bind]
  exact if_pos ((r.errors_lt_iff s).2 h)

theorem compile_of_no_errors (h : s.lexicalErrors = []) (r : Report) :
    compile r s = parse r s.tokens >>= fun (result, parsed) =>
      match result with
      | .error stage => .ok (.error stage, parsed)
      | .ok p => resolve parsed p := by
  rw [compile, tokens_eq, ok_bind, h]
  exact if_neg (Nat.lt_irrefl r.errors)

end Guarded

/-- Every source compiles with all contracts checked, from any report, and comes to what the plain
compilation comes to; and so does the writing of every diagnostic that it adds. -/
theorem Report.compile_keeps_contracts (r : Report) (s : Source) :
    ∃ result added, r.compile s = .ok (result, r.pushAll added) ∧
      Guarded.compile r s = .ok (result, r.pushAll added) ∧
      ∀ d ∈ added, ∃ text, d.render = .ok text ∧ Guarded.render d = .ok text := by
  have written {added : List Diagnostic} (of : ∀ d ∈ added, d.Of s) :
      ∀ d ∈ added, ∃ text, d.render = .ok text ∧ Guarded.render d = .ok text :=
    fun d hd => Guarded.render_eq (of d hd)
  by_cases lexed : s.lexicalErrors = []
  · rw [compile_of_no_errors lexed, Guarded.compile_of_no_errors lexed]
    obtain ⟨outcome, read⟩ := Program.ofTokens_ne_fault s.ends_tokens
    rw [Guarded.parse_eq s.sited_tokens, r.parse_eq, read]
    cases outcome with
    | ok p =>
      obtain ⟨result, added, of, resolved⟩ := Guarded.resolve_eq (Program.sited_of_tokens read)
      exact ⟨result, added, (resolved r).1, (resolved r).2, written of⟩
    | error e =>
      have found : e.found.Sited s := s.sited_tokens _ (Program.found_mem read)
      exact ⟨.error .parsing, [e.diagnostic], rfl, rfl,
        written fun d hd => List.mem_singleton.1 hd ▸ SyntaxError.of_diagnostic found⟩
  · rw [compile_of_errors lexed, Guarded.compile_of_errors lexed]
    refine ⟨_, _, rfl, rfl, written fun d hd => ?_⟩
    obtain ⟨t, ht, hd⟩ := List.mem_filterMap.1 hd
    exact Token.of_diagnostic? (s.sited_tokens t ht) hd

end ConstLang
