import ConstLang.Proofs.Compilation
import ConstLang.Proofs.Guarded.Program

/-!
# The first error is reported, once

The parser that writes to a report reads what the plain parser reads, and where that one stops it
reports the obstacle and nothing else. The tokens behind the first end mark are never looked at.
-/

namespace ConstLang

namespace Report

/-- The parser of a compilation. -/
theorem compile_eq_parse (r : Report) (s : Source) :
    r.compile s =
      let lexed := r.pushAll s.lexicalErrors
      if r.errors < lexed.errors then .ok (.error .lexing, lexed)
      else
        lexed.parse s.tokens >>= fun (result, parsed) =>
          match result with
          | .error stage => .ok (.error stage, parsed)
          | .ok p => parsed.resolve p := by
  unfold compile
  dsimp only
  split
  · rfl
  · rw [parse_eq]
    rcases Program.ofTokens s.tokens with _ | _ | _ <;> rfl

end Report

/-- The diagnostic of a syntax error says whether the token is not the one that is wanted. -/
theorem SyntaxError.code_diagnostic (e : SyntaxError) :
    (∃ wanted, e.obstacle = .unmet wanted ∧
      (e.diagnostic.code = some .unexpectedLexeme ∨ e.diagnostic.code = some .missingExpression)) ∨
    (e.obstacle = .nesting ∧ e.diagnostic.code = some .deepNesting) := by
  obtain ⟨obstacle, found⟩ := e
  cases obstacle with
  | nesting => exact .inr ⟨rfl, rfl⟩
  | unmet wanted =>
    refine .inl ⟨wanted, rfl, ?_⟩
    cases wanted <;> first | exact .inl rfl | exact .inr rfl

/-- The parser comes to an end on all tokens of which the last one is an end mark. It adds nothing
to the report if it reads a program, and one error otherwise. The tokens before the one that the
error lies at begin a program, and unless the error is that of nesting no tokens with it do. On
tokens of a source no contract is broken on the way. -/
theorem Report.parse_reports_first (r : Report) {ts : List Token}
    (ends : ts.getLast?.any Token.isEnd = true) :
    (∃ p, r.parse ts = .ok (.ok p, r) ∧
      ∀ s, (∀ t ∈ ts, t.Sited s) → Guarded.parse r ts = .ok (.ok p, r)) ∨
    ∃ d code i found,
      r.parse ts = .ok (.error .parsing, ⟨r.records ++ [d], r.errors + 1, r.warnings⟩) ∧
      (∀ s, (∀ t ∈ ts, t.Sited s) → Guarded.parse r ts =
        .ok (.error .parsing, ⟨r.records ++ [d], r.errors + 1, r.warnings⟩)) ∧
      d.severity = .error ∧ d.stage = .parsing ∧ d.code = some code ∧
      code ∈ [Code.unexpectedLexeme, .missingExpression, .deepNesting] ∧
      ts[i]? = some found ∧ d.span = some found.span ∧ Viable (ts.take i) ∧
      (code ≠ .deepNesting → ∀ j, Viable (ts.take j) ↔ j ≤ i) := by
  obtain ⟨outcome, read⟩ := Program.ofTokens_ne_fault ends
  cases outcome with
  | ok p =>
    have parsed : r.parse ts = .ok (.ok p, r) := by
      rw [parse_eq, read]
      rfl
    exact .inl ⟨p, parsed, fun s sited => (Guarded.parse_eq sited r).trans parsed⟩
  | error e =>
    have parsed : r.parse ts = .ok (.error .parsing, r.push e.diagnostic) := by
      rw [parse_eq, read]
      rfl
    have checked : ∀ s, (∀ t ∈ ts, t.Sited s) →
        Guarded.parse r ts = .ok (.error .parsing, r.push e.diagnostic) := fun s sited =>
      (Guarded.parse_eq sited r).trans parsed
    obtain ⟨before, after, rfl, viable, beyond⟩ := Program.viable_of_ofTokens read
    obtain ⟨severity, stage⟩ := e.severity_diagnostic
    have pushed : r.push e.diagnostic =
        ⟨r.records ++ [e.diagnostic], r.errors + 1, r.warnings⟩ := by
      rw [push, severity]
    rw [pushed] at parsed checked
    have place : (before ++ e.found :: after)[before.length]? = some e.found := by simp
    have span : e.diagnostic.span = some e.found.span := by
      unfold SyntaxError.diagnostic
      split <;> rfl
    have reached : Viable ((before ++ e.found :: after).take before.length) := by simpa using viable
    obtain ⟨wanted, unmet, code⟩ | ⟨-, code⟩ := e.code_diagnostic
    · have first : ∀ j, Viable ((before ++ e.found :: after).take j) ↔ j ≤ before.length :=
        viable.take_iff (beyond wanted unmet)
      obtain code | code := code
      · exact .inr ⟨_, _, _, _, parsed, checked, severity, stage, code, by simp, place, span,
          reached, fun _ => first⟩
      · exact .inr ⟨_, _, _, _, parsed, checked, severity, stage, code, by simp, place, span,
          reached, fun _ => first⟩
    · exact .inr ⟨_, _, _, _, parsed, checked, severity, stage, code, by simp, place, span,
        reached, fun other => absurd rfl other⟩

/-! `x : = ;` with two end marks -/

namespace Untyped

def source : Source := ⟨0, "", "x : = ;"⟩

def token (offset : ℕ) (l : Lexeme) : Token := ⟨l, .single ⟨source, offset, 1, offset + 1⟩⟩

def tokens : List Token :=
  [token 0 (.word "x"), token 2 (.mark .colon), token 4 (.mark .equals),
    token 6 (.mark .semicolon), token 7 (.mark .endOfFile), token 7 (.mark .endOfFile)]

theorem ofTokens_tokens :
    Program.ofTokens tokens = .ok (.error ⟨.unmet .typeExpr, token 4 (.mark .equals)⟩) := by
  have split : Program.splitAtEnd tokens = .ok (tokens.take 4, token 7 (.mark .endOfFile)) := by
    decide +kernel
  have stopped : Parser.definition (tokens.take 4) =
      .error ⟨.unmet .typeExpr, (tokens.take 4).drop 2⟩ := by decide +kernel
  rw [Program.ofTokens, split, ok_bind]
  dsimp only
  rw [Parser.definitions_of_ne_nil (by decide), stopped]
  rfl

end Untyped

open Untyped in
theorem Report.parse_reports_first_untyped :
    ∃ d, empty.parse tokens = .ok (.error .parsing, ⟨[d], 1, 0⟩) ∧
      Guarded.parse empty tokens = .ok (.error .parsing, ⟨[d], 1, 0⟩) ∧
      d.code = some .missingExpression ∧ d.span = some (token 4 (.mark .equals)).span ∧
      Viable (tokens.take 2) ∧ ¬ Viable (tokens.take 3) := by
  have ends : tokens.getLast?.any Token.isEnd = true := by decide +kernel
  have parsed := empty.parse_eq tokens
  rw [ofTokens_tokens] at parsed
  have sited : ∀ t ∈ tokens, t.Sited source := by
    have among : ∀ t ∈ tokens, t ∈ source.tokens := by decide +kernel
    exact fun t mem => source.sited_tokens t (among t mem)
  obtain ⟨p, read, -⟩ |
      ⟨d, code, i, found, read, checked, -, -, coded, -, place, span, viable, first⟩ :=
    empty.parse_reports_first ends
  · rw [parsed] at read
    cases read
  · have same : d = SyntaxError.diagnostic ⟨.unmet .typeExpr, token 4 (.mark .equals)⟩ := by
      rw [parsed] at read
      cases read
      rfl
    subst same
    obtain rfl : code = .missingExpression := (Option.some.inj coded).symm
    have only : ∀ k < tokens.length,
        tokens[k]?.map Token.span = some (token 4 (.mark .equals)).span → k = 2 := by
      decide +kernel
    obtain ⟨inside, -⟩ := List.getElem?_eq_some_iff.1 place
    obtain rfl := only i inside (by rw [place]; exact span.symm)
    exact ⟨_, read, checked source sited, rfl, rfl, viable, mt (first nofun 3).1 (by decide)⟩

end ConstLang
