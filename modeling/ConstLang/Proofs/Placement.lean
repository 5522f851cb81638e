import ConstLang.Proofs.Guarded.Compilation
import ConstLang.Proofs.Line
import ConstLang.Proofs.Program.Viability
import ConstLang.Proofs.Program.Spans

/-!
# Everything is where it says

A position of a source is reached from the start by steps over characters, and so its line and its
column can be counted in the text. Everything that has a place in a source has it from the tokens:
the nodes of a program, the trees of its variables, and what is reported.
-/

namespace ConstLang

/-- A position is where it says. It is in front of a character of `s` or at the end of the text, its
line counts the newlines before it, and its column the characters between the last newline before it
and the position. -/
structure Position.Correct (s : Source) (p : Position) : Prop where
  source : p.source = s
  counted : ∃ before line after, s.text.toList = before ++ line ++ after ∧
    Source.StartsLine before ∧ '\n' ∉ line ∧ p.offset = Utf8.size (before ++ line) ∧
    p.line = 1 + (before ++ line).count '\n' ∧ p.column = 1 + line.length

structure Span.Correct (s : Source) (span : Span) : Prop where
  first : span.first.Correct s
  last : span.last.Correct s
  ordered : span.first.offset ≤ span.last.offset

/-- Every node of a program and every token in it is where it says, and so is the program. -/
structure Program.Correct (s : Source) (p : Program) : Prop where
  span : p.span.Correct s
  nodes : ∀ n ∈ p.nodes, n.span.Correct s
  tokens : ∀ t ∈ p.tokens, t.span.Correct s

/-- Every node of a variable is where it says, and so is every token in its expression. -/
structure Variable.Correct (s : Source) (v : Variable) : Prop where
  name : v.name.span.Correct s
  nodes : ∀ e ∈ v.expr.nodes, e.span.Correct s
  tokens : ∀ t ∈ v.expr.tokens, t.span.Correct s
  declared : ∀ a ∈ v.declared.nodes, a.span.Correct s
  value : ∀ a ∈ v.value.nodes, a.span.Correct s

/-- A diagnostic has a span, which is where it says. -/
def Diagnostic.Correct (s : Source) (d : Diagnostic) : Prop :=
  ∃ span, d.span = some span ∧ span.Correct s

variable {s : Source}

/-! ## Positions -/

theorem Position.Of.correct {p : Position} (h : p.Of s) : p.Correct s := by
  obtain ⟨after, taken, text, rfl⟩ := h
  obtain ⟨before, split, starts, line⟩ := Source.exists_afterLastNewline taken
  refine ⟨source_after .., before, Source.afterLastNewline taken, after, ?_, starts, line, ?_, ?_,
    ?_⟩
  · rw [← split, text]
  · rw [← split, offset_after, offset_start, Nat.zero_add]
  · rw [← split, line_after]
    rfl
  · exact column_after_start taken

theorem Span.Of.correct {span : Span} (h : span.Of s) : span.Correct s :=
  ⟨h.first.correct, h.last.correct, h.ordered⟩

/-! ## Programs -/

theorem Node.of_span {n : Node} (h : ∀ t ∈ n.tokens, t.Sited s) : n.span.Of s := by
  cases n with
  | name n => exact (h n.token (List.mem_singleton_self _)).of
  | expr e => exact Expr.of_span h
  | definition d => exact Definition.of_span h

namespace Program

variable {p : Program}

theorem of_span (h : ∀ t ∈ p.tokens, t.Sited s) : p.span.Of s := by
  have definition : ∀ d ∈ p.definitions, d.span.Of s := fun d mem => Definition.of_span fun t ht =>
    h t (List.mem_append_left _ (List.mem_flatMap_of_mem mem ht))
  obtain ⟨ds, endMark⟩ := p
  cases ds with
  | nil => exact (h _ (List.mem_singleton_self _)).of
  | cons d ds =>
    obtain ⟨first, others⟩ := List.forall_mem_cons.1 definition
    exact List.foldlRecOn ds _ first fun span of d mem => of.cover (others d mem)

theorem correct (h : ∀ t ∈ p.tokens, t.Sited s) : p.Correct s where
  span := (of_span h).correct
  nodes _ mem := (Node.of_span fun t ht =>
    h t (List.mem_append_left _ ((tokens_isInfix mem).subset ht))).correct
  tokens t mem := (h t mem).of.correct

/-- The trees of a variable mirror the expressions of a definition, and so have their spans. -/
theorem correct_variable {v : Variable} {d : Definition} (h : ∀ t ∈ p.tokens, t.Sited s)
    (mem : d ∈ p.definitions) (mirrors : v.Mirrors d) : v.Correct s := by
  obtain ⟨type, value⟩ := contains_exprs mem
  have nodes := (correct h).nodes
  have spans {a : Annotated} {e : Expr} (mirrors : a.Mirrors e) (inside : p.Contains e) :
      ∀ b ∈ a.nodes, b.span.Correct s := by
    intro b hb
    have mem := List.mem_map_of_mem (f := Annotated.span) hb
    rw [mirrors.spans] at mem
    obtain ⟨e, he, same⟩ := List.mem_map.1 mem
    rw [← same]
    exact nodes _ (inside e he)
  refine ⟨?_, fun e he => ?_, fun t ht => ?_, spans mirrors.declared type,
    spans mirrors.value value⟩
  · rw [mirrors.name]
    exact ((mentions_definition mem).of_span h).correct
  · rw [mirrors.expr] at he
    exact nodes _ (value e he)
  · rw [mirrors.expr] at ht
    refine (h t (List.mem_append_left _ (List.mem_flatMap_of_mem mem ?_))).of.correct
    simp [Definition.tokens, ht]

end Program

/-! ## Diagnostics -/

theorem Diagnostic.Of.correct {d : Diagnostic} (h : d.Of s) (placed : d.span.isSome = true) :
    d.Correct s := by
  obtain ⟨span, same⟩ := Option.isSome_iff_exists.1 placed
  exact ⟨span, same, (h span same).correct⟩

theorem Token.isSome_span {t : Token} {d : Diagnostic} (h : t.diagnostic? = some d) :
    d.span.isSome = true := by
  obtain ⟨flaw, -, rfl⟩ := Option.map_eq_some_iff.1 h
  rfl

theorem SyntaxError.isSome_span (e : SyntaxError) : e.diagnostic.span.isSome = true := by
  unfold diagnostic
  split <;> rfl

theorem Issue.isSome_span {i : Issue} {d : Diagnostic} (h : d ∈ i.diagnostics) :
    d.span.isSome = true := by
  obtain rfl | h := List.mem_cons.1 h
  · rfl
  · obtain ⟨⟨span, message⟩, -, rfl⟩ := Option.map_eq_some_iff.1 (Option.mem_toList.1 h)
    rfl

theorem Source.correct_lexicalErrors {d : Diagnostic} (h : d ∈ s.lexicalErrors) :
    d.Correct s := by
  obtain ⟨t, mem, hd⟩ := List.mem_filterMap.1 h
  exact (Token.of_diagnostic? (s.sited_tokens t mem) hd).correct (Token.isSome_span hd)

/-! ## Stages -/

theorem Program.correct_resolution {p : Program} {r : Resolution} (h : ∀ t ∈ p.tokens, t.Sited s)
    (resolved : p.resolve = .ok r) :
    (∀ v ∈ r.symbols.vars, v.Correct s) ∧ ∀ i ∈ r.issues, ∀ d ∈ i.diagnostics, d.Correct s := by
  refine ⟨fun v mem => ?_, fun i hi d hd => ?_⟩
  · obtain ⟨d, hd, mirrors⟩ := (from_of_resolve resolved).1 v mem
    exact correct_variable h hd mirrors
  · exact ((sited_issues h resolved i hi).diagnostics d hd).correct (Issue.isSome_span hd)

/-- Whatever has a place in a source is where it says: its tokens and what is reported about them,
the program that they spell or the syntax error, the variables of the program and what is reported
about it, and so all that comes out of a compilation. -/
theorem Source.places_correct (s : Source) :
    ((∀ t ∈ s.tokens, t.span.Correct s) ∧ ∀ d ∈ s.lexicalErrors, d.Correct s) ∧
    (∀ e, Program.ofTokens s.tokens = .ok (.error e) → e.diagnostic.Correct s) ∧
    (∀ p, Program.ofTokens s.tokens = .ok (.ok p) → p.Correct s ∧
      ∃ r, p.resolve = .ok r ∧ (∀ v ∈ r.symbols.vars, v.Correct s) ∧
        ∀ i ∈ r.issues, ∀ d ∈ i.diagnostics, d.Correct s) ∧
    ∀ r : Report, ∃ result added, r.compile s = .ok (result, r.pushAll added) ∧
      (∀ d ∈ added, d.Correct s) ∧
      ∀ c, result = .ok c → c.program.Correct s ∧ ∀ v ∈ c.symbols.vars, v.Correct s := by
  have syntactic (e : SyntaxError) (h : Program.ofTokens s.tokens = .ok (.error e)) :
      e.diagnostic.Correct s := by
    have found := s.sited_tokens _ (Program.found_mem h)
    exact (SyntaxError.of_diagnostic found).correct e.isSome_span
  refine ⟨⟨fun t mem => (s.sited_tokens t mem).of.correct, fun d => correct_lexicalErrors⟩,
    syntactic, fun p h => ⟨Program.correct (Program.sited_of_tokens h), ?_⟩, fun r => ?_⟩
  · obtain ⟨complete, issues, resolved⟩ := p.exists_resolve_eq
    exact ⟨_, resolved, Program.correct_resolution (Program.sited_of_tokens h) resolved⟩
  · obtain ⟨-, compiled⟩ | ⟨e, h, compiled⟩ | ⟨p, resolution, h, resolved, compiled⟩ :=
      s.compile_cases
    · exact ⟨_, _, compiled r, fun d => correct_lexicalErrors, nofun⟩
    · refine ⟨_, _, compiled r, fun d mem => ?_, nofun⟩
      exact List.mem_singleton.1 mem ▸ syntactic e h
    · obtain ⟨vars, issues⟩ := Program.correct_resolution (Program.sited_of_tokens h) resolved
      refine ⟨_, _, compiled r, fun d mem => ?_, fun c same => ?_⟩
      · obtain ⟨i, hi, hd⟩ := List.mem_flatMap.1 mem
        exact issues i hi d hd
      · split at same
        · obtain rfl := Except.ok.inj same
          exact ⟨Program.correct (Program.sited_of_tokens h), vars⟩
        · contradiction

namespace Source

/-- Two definitions on three lines, the first of which ends with a carriage return too. -/
def continued : Source := ⟨0, "", "x : i4 = 1 ;\r\ny : i4 =\n x ;"⟩

/-- A definition without a value. -/
def unfinished : Source := ⟨0, "", "x : i4 = "⟩

theorem places_correct_continued :
    (∃ e, Program.ofTokens unfinished.tokens = .ok (.error e) ∧
      e.diagnostic.Correct unfinished) ∧
    (∃ p, Program.ofTokens continued.tokens = .ok (.ok p) ∧ p.Correct continued) ∧
    ∃ c r, Report.empty.compile continued = .ok (.ok c, r) ∧ c.program.Correct continued ∧
      c.symbols.vars.length = 2 ∧ ∀ v ∈ c.symbols.vars, v.Correct continued := by
  have failed : (Program.ofTokens unfinished.tokens).toOption.map Except.isOk = some false := by
    decide +kernel
  have read : (Program.ofTokens continued.tokens).toOption.map Except.isOk = some true := by
    decide +kernel
  have built : (Report.empty.compile continued).toOption.bind (fun out => out.1.toOption.map
      fun c => c.symbols.vars.length) = some 2 := by decide +kernel
  obtain ⟨-, syntactic, -, -⟩ := places_correct unfinished
  obtain ⟨-, -, programs, compiles⟩ := places_correct continued
  obtain ⟨result, added, compiled, -, correct⟩ := compiles .empty
  refine ⟨?_, ?_, ?_⟩
  · rcases parsed : Program.ofTokens unfinished.tokens with _ | e | p
    · simp [parsed, Except.toOption] at failed
    · exact ⟨e, rfl, syntactic e parsed⟩
    · simp [parsed, Except.toOption, Except.isOk, Except.toBool] at failed
  · rcases parsed : Program.ofTokens continued.tokens with _ | e | p
    · simp [parsed, Except.toOption] at read
    · simp [parsed, Except.toOption, Except.isOk, Except.toBool] at read
    · exact ⟨p, rfl, (programs p parsed).1⟩
  · rw [compiled] at built
    cases result with
    | error stage => simp [Except.toOption] at built
    | ok c =>
      obtain ⟨program, vars⟩ := correct c rfl
      exact ⟨c, _, compiled, program, Option.some.inj built, vars⟩

end Source

end ConstLang
