import ConstLang.Proofs.Compilation
import ConstLang.Proofs.Layout.Resolution
import ConstLang.Proofs.Token.Reread

/-!
# Layout does not matter

A compilation looks at the lexemes of its source alone, and the places of the tokens are passed on.
So two sources whose lexemes have the same texts are compiled alike, whatever blanks stand between
them.
-/

namespace ConstLang

variable (o : Span)

/-! ## Diagnostics -/

def Diagnostic.moved (d : Diagnostic) : Diagnostic :=
  ⟨d.severity, d.code, d.stage, d.span.map fun _ => o, d.message⟩

theorem Token.diagnostic?_moved (t : Token) :
    (t.moved o).diagnostic? = t.diagnostic?.map (Diagnostic.moved o) := by
  rw [diagnostic?, diagnostic?, Option.map_map]
  rfl

theorem SyntaxError.diagnostic_moved (e : SyntaxError) :
    (e.moved o).diagnostic = e.diagnostic.moved o := by
  obtain ⟨obstacle, found⟩ := e
  cases obstacle <;> rfl

/-- The message of an issue says nothing of its place. -/
theorem Issue.diagnostics_moved (i : Issue) :
    (i.moved o).diagnostics = i.diagnostics.map (Diagnostic.moved o) := by
  cases i <;> rfl

namespace Report

def moved (r : Report) : Report := ⟨r.records.map (Diagnostic.moved o), r.errors, r.warnings⟩

theorem push_moved (r : Report) (d : Diagnostic) :
    (r.moved o).push (d.moved o) = (r.push d).moved o := by
  obtain ⟨severity, code, stage, span, message⟩ := d
  cases severity <;> simp [push, moved, Diagnostic.moved]

theorem pushAll_moved (r : Report) (ds : List Diagnostic) :
    (r.moved o).pushAll (ds.map (Diagnostic.moved o)) = (r.pushAll ds).moved o := by
  induction ds generalizing r with
  | nil => rfl
  | cons d ds ih => rw [List.map_cons, pushAll_cons, pushAll_cons, push_moved, ih]

end Report

/-! ## Compilation -/

def ResolvedProgram.moved (p : ResolvedProgram) : ResolvedProgram :=
  ⟨p.program.moved o, p.symbols.moved o⟩

namespace Report

/-- What a compilation comes to once it is moved. -/
def relaid : Except Stage ResolvedProgram × Report → Except Stage ResolvedProgram × Report :=
  Prod.map (Except.map (ResolvedProgram.moved o)) (moved o)

theorem resolve_moved (r : Report) (p : Program) :
    (r.moved o).resolve (p.moved o) = (r.resolve p).map (relaid o) := by
  refine bind_eq_map (Program.resolve_moved o p) fun resolution => ?_
  have added : (resolution.moved o).issues.flatMap Issue.diagnostics =
      (resolution.issues.flatMap Issue.diagnostics).map (Diagnostic.moved o) := by
    rw [Resolution.moved, List.flatMap_map, List.map_flatMap]
    exact congrArg (List.flatMap · resolution.issues) (funext (Issue.diagnostics_moved o))
  rw [added, pushAll_moved]
  obtain ⟨complete, symbols, issues⟩ := resolution
  cases complete <;> rfl

/-- Compiles the tokens of a source. -/
def compileTokens (r : Report) (ts : List Token) :
    Except Fault (Except Stage ResolvedProgram × Report) := do
  let lexed := r.pushAll (ts.filterMap Token.diagnostic?)
  if r.errors < lexed.errors then return (.error .lexing, lexed)
  match ← Program.ofTokens ts with
  | .error e => return (.error .parsing, lexed.push e.diagnostic)
  | .ok p => lexed.resolve p

theorem compile_eq (r : Report) (s : Source) : r.compile s = r.compileTokens s.tokens := rfl

theorem compileTokens_moved (r : Report) (ts : List Token) :
    (r.moved o).compileTokens (ts.map (Token.moved o)) = (r.compileTokens ts).map (relaid o) := by
  have errors : (ts.map (Token.moved o)).filterMap Token.diagnostic? =
      (ts.filterMap Token.diagnostic?).map (Diagnostic.moved o) := by
    rw [List.filterMap_map, List.map_filterMap]
    exact congrArg (List.filterMap · ts) (funext (Token.diagnostic?_moved o))
  rw [compileTokens, compileTokens, errors, pushAll_moved]
  change (if r.errors < (r.pushAll (ts.filterMap Token.diagnostic?)).errors then _ else _) = _
  split
  · rfl
  · refine bind_eq_map (Program.ofTokens_moved o ts) fun parsed => ?_
    cases parsed with
    | error e =>
      have pushed := push_moved o (r.pushAll (ts.filterMap Token.diagnostic?)) e.diagnostic
      rw [← SyntaxError.diagnostic_moved] at pushed
      exact congrArg (fun after => Except.ok (Except.error Stage.parsing, after)) pushed
    | ok p => exact resolve_moved o _ p

/-- Two sources whose lexemes have the same texts in the same order are compiled alike. The same
stage fails, or none; then the variables are the same but for spans, with their types, values and
trees. The diagnostics that are added are the same but for spans, too. -/
theorem compile_layout {s t : Source}
    (same : s.tokens.map (fun u => u.lexeme.text) = t.tokens.map fun u => u.lexeme.text)
    (r : Report) :
    ∃ result after result' after',
      r.compile s = .ok (result, after) ∧ r.compile t = .ok (result', after') ∧
      result.map (ResolvedProgram.moved o) = result'.map (ResolvedProgram.moved o) ∧
      after.moved o = after'.moved o := by
  have tokens : s.tokens.map (Token.moved o) = t.tokens.map (Token.moved o) :=
    (Token.map_moved_eq_iff o).2 (Source.lexemes_eq_of_texts same)
  have alike : (r.compile s).map (relaid o) = (r.compile t).map (relaid o) := by
    rw [compile_eq, compile_eq, ← compileTokens_moved, ← compileTokens_moved, tokens]
  obtain ⟨result, added, -, compiled⟩ := s.exists_compile_eq
  obtain ⟨result', added', -, compiled'⟩ := t.exists_compile_eq
  rw [compiled, compiled'] at alike
  have parts := Prod.mk.inj (Except.ok.inj alike)
  exact ⟨_, _, _, _, compiled r, compiled' r, parts.1, parts.2⟩

/-- Two definitions without a blank, the first of which is rounded. -/
def dense : Source := ⟨0, "", "x:f4=1234567+0.25;y:f4=x/3;"⟩

/-- The same definitions on three lines. -/
def spread : Source := ⟨1, "", "x : f4 =\n 1234567 +0.25 ;\r\n\ty : f4 = x / 3 ;"⟩

theorem compile_layout_spread :
    dense.tokens.map (fun u => u.lexeme.text) = spread.tokens.map (fun u => u.lexeme.text) ∧
    ∃ program after program' after', empty.compile dense = .ok (.ok program, after) ∧
      empty.compile spread = .ok (.ok program', after') ∧
      program.symbols.vars.length = 2 ∧ after.warnings = 1 ∧
      program.moved (.single dense.start) = program'.moved (.single dense.start) ∧
      after.moved (.single dense.start) = after'.moved (.single dense.start) := by
  have same : dense.tokens.map (fun u => u.lexeme.text) =
      spread.tokens.map fun u => u.lexeme.text := by
    decide +kernel
  have built : (empty.compile dense).toOption.bind (fun out => out.1.toOption.map
      fun program => (program.symbols.vars.length, out.2.warnings)) = some (2, 1) := by
    decide +kernel
  obtain ⟨result, after, result', after', compiled, compiled', results, reports⟩ :=
    compile_layout (.single dense.start) same empty
  rw [compiled] at built
  cases result with
  | error stage => simp [Except.toOption] at built
  | ok program =>
    cases result' with
    | error stage => simp [Except.map] at results
    | ok program' =>
      obtain ⟨vars, warnings⟩ := Prod.mk.inj (Option.some.inj built)
      exact ⟨same, program, after, program', after', compiled, compiled', vars, warnings,
        Except.ok.inj results, reports⟩

end Report

end ConstLang
