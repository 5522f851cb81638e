import ConstLang.Compilation
import ConstLang.Proofs.Program.Acceptance
import ConstLang.Proofs.Resolution.Refinement
import ConstLang.Proofs.Resolution.Reporting
import ConstLang.Proofs.Token.Tiling

/-!
# Compilation and its report

A compilation adds to a report and looks at nothing in it but the errors it has added itself. So
its result, and what it adds, are those of a compilation with an empty report; and the result is a
program exactly if no error was added.
-/

namespace ConstLang

namespace Report

/-! ## Reports -/

variable (r : Report) (ds es : List Diagnostic)

theorem pushAll_cons (d : Diagnostic) : r.pushAll (d :: ds) = (r.push d).pushAll ds := rfl

theorem pushAll_append : r.pushAll (ds ++ es) = (r.pushAll ds).pushAll es := List.foldl_append

theorem records_pushAll : (r.pushAll ds).records = r.records ++ ds := by
  induction ds generalizing r with
  | nil => simp [pushAll]
  | cons d ds ih =>
    have step : (r.push d).records = r.records ++ [d] := by
      unfold push
      split <;> rfl
    rw [pushAll_cons, ih, step, List.append_assoc, List.singleton_append]

theorem errors_pushAll :
    (r.pushAll ds).errors = r.errors + ds.countP fun d => d.severity = .error := by
  induction ds generalizing r with
  | nil => rfl
  | cons d ds ih =>
    rw [pushAll_cons, ih, List.countP_cons, push]
    cases d.severity <;> grind

theorem warnings_pushAll :
    (r.pushAll ds).warnings = r.warnings + ds.countP fun d => d.severity = .warning := by
  induction ds generalizing r with
  | nil => rfl
  | cons d ds ih =>
    rw [pushAll_cons, ih, List.countP_cons, push]
    cases d.severity <;> grind

/-- Errors and warnings are counted as they are recorded. -/
def Counts : Prop :=
  r.errors = r.records.countP (fun d => d.severity = .error) ∧
    r.warnings = r.records.countP fun d => d.severity = .warning

theorem counts_pushAll : (empty.pushAll ds).Counts := by
  rw [Counts, records_pushAll, errors_pushAll, warnings_pushAll]
  simp [empty]

/-- An error was added exactly if the count of errors has grown. -/
theorem errors_lt_pushAll : r.errors < (r.pushAll ds).errors ↔ ∃ d ∈ ds, d.severity = .error := by
  rw [errors_pushAll, Nat.lt_add_right_iff_pos, List.countP_pos_iff]
  simp

end Report

/-! ## Stages -/

theorem Token.error_of_diagnostic? {t : Token} {d : Diagnostic} (h : t.diagnostic? = some d) :
    d.severity = .error ∧ d.stage = .lexing := by
  obtain ⟨flaw, -, rfl⟩ := Option.map_eq_some_iff.1 h
  cases flaw <;> exact ⟨rfl, rfl⟩

theorem SyntaxError.severity_diagnostic (e : SyntaxError) :
    e.diagnostic.severity = .error ∧ e.diagnostic.stage = .parsing := by
  obtain ⟨obstacle, found⟩ := e
  cases obstacle with
  | unmet wanted => cases wanted <;> exact ⟨rfl, rfl⟩
  | nesting => exact ⟨rfl, rfl⟩

theorem Source.ends_tokens (s : Source) : s.tokens.getLast?.any Token.isEnd = true := by
  obtain ⟨parts, last, tokens, -⟩ := s.tiles.exists_parts (Position.ahead_start s)
  simp [tokens, Token.isEnd, Mark.token]

/-- A result that agrees with what was added to a report on the way to it. -/
structure Report.Agree (result : Except Stage ResolvedProgram) (added : List Diagnostic) :
    Prop where
  isOk : result.isOk = true ↔ ∀ d ∈ added, d.severity ≠ .error
  rounded : result.isOk = true → ∀ d ∈ added,
    d.severity = .warning ∧ d.code = some .roundedConstant ∧ d.stage = .resolving
  failed : ∀ stage, result = .error stage →
    (∀ d ∈ added, d.stage = stage) ∧ ∃ d ∈ added, d.severity = .error
  single : result = .error .parsing → added.length = 1

namespace Report.Agree

theorem of_error {stage : Stage} {ds : List Diagnostic} (staged : ∀ d ∈ ds, d.stage = stage)
    (error : ∃ d ∈ ds, d.severity = .error) (single : stage = .parsing → ds.length = 1) :
    Agree (.error stage) ds where
  isOk := by simpa [Except.isOk, Except.toBool] using error
  rounded := nofun
  failed _ h := Except.error.inj h ▸ ⟨staged, error⟩
  single h := single (Except.error.inj h)

/-- The verdict of a resolution, with the diagnostics of its issues. -/
theorem of_resolution {p : Program} {r : Resolution} (h : p.resolve = .ok r) :
    Agree (if r.complete then .ok ⟨p, r.symbols⟩ else .error .resolving)
      (r.issues.flatMap Issue.diagnostics) := by
  have staged : ∀ d ∈ r.issues.flatMap Issue.diagnostics, d.stage = .resolving := by
    intro d hd
    obtain ⟨i, -, hd⟩ := List.mem_flatMap.1 hd
    exact Issue.stage_of_mem_diagnostics hd
  have complete := Program.complete_iff h
  cases hc : r.complete with
  | false =>
    exact of_error staged (Issue.exists_error_iff.2 (mt complete.2 (by simp [hc]))) nofun
  | true =>
    have warned : ∀ d ∈ r.issues.flatMap Issue.diagnostics,
        d.severity = .warning ∧ d.code = some .roundedConstant := by
      intro d hd
      obtain ⟨i, hi, hd⟩ := List.mem_flatMap.1 hd
      exact Issue.diagnostics_of_isRounding (complete.1 hc i hi) d hd
    exact {
      isOk := iff_of_true rfl fun d hd => by simp [(warned d hd).1]
      rounded := fun _ d hd => ⟨(warned d hd).1, (warned d hd).2, staged d hd⟩
      failed := nofun
      single := nofun }

end Report.Agree

theorem Source.error_of_mem_lexicalErrors {s : Source} {d : Diagnostic}
    (h : d ∈ s.lexicalErrors) : d.severity = .error ∧ d.stage = .lexing := by
  obtain ⟨t, -, ht⟩ := List.mem_filterMap.1 h
  exact Token.error_of_diagnostic? ht

/-- Every lexical error is counted. -/
theorem Report.errors_lt_iff (r : Report) (s : Source) :
    r.errors < (r.pushAll s.lexicalErrors).errors ↔ s.lexicalErrors ≠ [] := by
  rw [errors_lt_pushAll]
  constructor
  · rintro ⟨d, hd, -⟩
    exact List.ne_nil_of_mem hd
  · intro h
    obtain ⟨d, hd⟩ := List.exists_mem_of_ne_nil _ h
    exact ⟨d, hd, (Source.error_of_mem_lexicalErrors hd).1⟩

theorem Report.compile_of_errors {s : Source} (h : s.lexicalErrors ≠ []) (r : Report) :
    r.compile s = .ok (.error .lexing, r.pushAll s.lexicalErrors) := by
  rw [compile, if_pos ((r.errors_lt_iff s).2 h)]
  rfl

theorem Report.compile_of_no_errors {s : Source} (h : s.lexicalErrors = []) (r : Report) :
    r.compile s = Program.ofTokens s.tokens >>= fun parsed => match parsed with
      | .error e => .ok (.error .parsing, r.push e.diagnostic)
      | .ok p => r.resolve p := by
  rw [compile, if_neg (mt (r.errors_lt_iff s).1 (not_not.2 h)), h]
  rfl

/-- How a compilation ends: after its tokens, with a syntax error, or with a resolution. It comes to
the same, and adds the same, with every report. -/
theorem Source.compile_cases (s : Source) :
    (s.lexicalErrors ≠ [] ∧
      ∀ r : Report, r.compile s = .ok (.error .lexing, r.pushAll s.lexicalErrors)) ∨
    (∃ e, Program.ofTokens s.tokens = .ok (.error e) ∧
      ∀ r : Report, r.compile s = .ok (.error .parsing, r.pushAll [e.diagnostic])) ∨
    ∃ p resolution, Program.ofTokens s.tokens = .ok (.ok p) ∧ p.resolve = .ok resolution ∧
      ∀ r : Report, r.compile s =
        .ok (if resolution.complete then .ok ⟨p, resolution.symbols⟩ else .error .resolving,
          r.pushAll (resolution.issues.flatMap Issue.diagnostics)) := by
  by_cases lexed : s.lexicalErrors = []
  · have compiled := Report.compile_of_no_errors lexed
    obtain ⟨parsed, hp⟩ := Program.ofTokens_ne_fault s.ends_tokens
    simp only [hp, ok_bind] at compiled
    cases parsed with
    | error e => exact .inr (.inl ⟨e, hp, compiled⟩)
    | ok p =>
      obtain ⟨complete, issues, resolved⟩ := p.exists_resolve_eq
      refine .inr (.inr ⟨p, _, hp, resolved, fun r => (compiled r).trans ?_⟩)
      simp only [Report.resolve, resolved, ok_bind]
      rfl
  · exact .inl ⟨lexed, Report.compile_of_errors lexed⟩

/-- A compilation comes to the same with every report. -/
theorem Source.exists_compile_eq (s : Source) :
    ∃ result added, Report.Agree result added ∧
      ∀ r : Report, r.compile s = .ok (result, r.pushAll added) := by
  obtain ⟨lexed, compiled⟩ | ⟨e, -, compiled⟩ | ⟨p, resolution, -, resolved, compiled⟩ :=
    s.compile_cases
  · obtain ⟨d, hd⟩ := List.exists_mem_of_ne_nil _ lexed
    exact ⟨_, _, .of_error (fun d hd => (error_of_mem_lexicalErrors hd).2)
      ⟨d, hd, (error_of_mem_lexicalErrors hd).1⟩ nofun, compiled⟩
  · obtain ⟨error, staged⟩ := e.severity_diagnostic
    exact ⟨_, [e.diagnostic], .of_error (by simp [staged]) (by simp [error]) (by simp), compiled⟩
  · exact ⟨_, _, .of_resolution resolved, compiled⟩

/-- A compilation adds to what a report holds, and its result and what it adds are those of a
compilation with an empty report. The counts are right before and after. The result is a program
exactly if no error is added, and then roundings alone are; otherwise everything that is added is
of the stage that failed, and of the parser it is one diagnostic. -/
theorem Report.compile_agrees (s : Source) :
    ∃ result added, Agree result added ∧
      empty.compile s = .ok (result, empty.pushAll added) ∧ (empty.pushAll added).records = added ∧
      ∀ ds : List Diagnostic,
        (empty.pushAll ds).records = ds ∧ (empty.pushAll ds).Counts ∧
        ∃ after, (empty.pushAll ds).compile s = .ok (result, after) ∧
          after.records = (empty.pushAll ds).records ++ added ∧ after.Counts := by
  obtain ⟨result, added, agree, compiled⟩ := s.exists_compile_eq
  have records (ds : List Diagnostic) : (empty.pushAll ds).records = ds := by
    rw [records_pushAll, empty, List.nil_append]
  refine ⟨result, added, agree, compiled empty, records added, fun ds =>
    ⟨records ds, counts_pushAll ds, _, compiled _, records_pushAll _ _, ?_⟩⟩
  rw [← pushAll_append]
  exact counts_pushAll _

end ConstLang
