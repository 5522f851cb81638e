import ConstLang.Proofs.Diagnostic.Excerpt

/-!
# Diagnostics are written on lines of their own

What a compilation reports points at lexemes of the source or at its end, and is written as a
headline and an excerpt. No line of it has a newline, so that the lines can be told apart again in
the text.
-/

namespace ConstLang

/-! ## Lines -/

namespace OneLine

theorem pushn {text : String} (h : OneLine text) (n : ℕ) {c : Char} (other : c ≠ '\n') :
    OneLine (text.pushn c n) := by
  rw [String.pushn_eq_repeat_push]
  induction n with
  | zero => exact h
  | succ n ih =>
    rw [OneLine, Nat.repeat, String.toList_push, List.mem_append, List.mem_singleton, not_or]
    exact ⟨ih, other.symm⟩

theorem empty : OneLine "" := lit List.not_mem_nil

theorem dots : OneLine "..." := lit (by decide)

theorem numbered (line : ℕ) {text : String} (h : OneLine text) :
    OneLine (Diagnostic.numbered line text) := by
  have padding := empty.pushn (5 - (toString line).length) (show ' ' ≠ '\n' by decide)
  simp only [Diagnostic.numbered, append_iff, padding, nat, h, true_and, and_true]
  exact lit (by decide)

theorem underline (indent width : ℕ) : OneLine (Diagnostic.underline indent width) := by
  have spaces := empty.pushn indent (show ' ' ≠ '\n' by decide)
  have tildes := empty.pushn width (show '~' ≠ '\n' by decide)
  simp only [Diagnostic.underline, append_iff, spaces, tildes, and_true]
  exact lit (by decide)

end OneLine

open OneLine

namespace Diagnostic

variable {s : Source} {span : Span} {text : String} {excerpt : List String}

theorem UnderlinesLine.oneLine (h : UnderlinesLine s span text excerpt) :
    ∀ line ∈ excerpt, OneLine line := by
  obtain ⟨before, line, behind, width, -, -, -, flat, -, rfl, -⟩ := h
  simp [OneLine.numbered _ (lit flat), OneLine.underline]

theorem UnderlinesEnds.oneLine (h : UnderlinesEnds span text excerpt) :
    ∀ line ∈ excerpt, OneLine line := by
  obtain ⟨-, -, -, tail⟩ := Source.exists_line text.toList
  obtain ⟨-, -, -, head⟩ := Source.exists_afterLastNewline text.toList
  have tail_line := append_iff.2 ⟨lit tail, OneLine.dots⟩
  have head_line := append_iff.2 ⟨OneLine.dots, lit head⟩
  rw [UnderlinesEnds] at h
  rw [h]
  simp only [List.forall_mem_cons, List.not_mem_nil, false_implies, implies_true, and_true]
  exact ⟨OneLine.numbered _ tail_line, OneLine.underline _ _, OneLine.numbered _ head_line,
    OneLine.underline _ _⟩

/-- The first line of a diagnostic about a span. -/
def headline (d : Diagnostic) (span : Span) : String :=
  s!"{d.stage.name}: {span.first.label}:{span.last.line}:{span.last.column}: " ++
    s!"{d.severity.name}: {d.message}"

theorem oneLine_headline {d : Diagnostic} (path : OneLine span.first.source.path)
    (message : OneLine d.message) : OneLine (d.headline span) := by
  have stage : OneLine d.stage.name := by cases d.stage <;> exact lit (by decide)
  have severity : OneLine d.severity.name := by cases d.severity <;> exact lit (by decide)
  simp only [headline, Position.label, append_iff, toString_iff, path, message, stage, severity,
    nat, true_and, and_true]
  and_intros <;> exact lit (by decide)

theorem lines_eq {d : Diagnostic} (same : d.span = some span)
    (h : Diagnostic.excerpt span = .ok excerpt) : d.lines = .ok (d.headline span :: excerpt) := by
  have text : ∀ t : String, toString t = t := fun _ => rfl
  rw [lines, same]
  simp only [h, ok_bind, headline, text, String.append_assoc]
  rfl

/-- A diagnostic that is written without newlines is split into its lines at the newlines. -/
theorem render_eq {d : Diagnostic} {lines : List String} (h : d.lines = .ok lines)
    (nonempty : lines ≠ []) (flat : ∀ line ∈ lines, OneLine line) :
    ∃ rendered, d.render = .ok rendered ∧
      rendered.toList.splitOn '\n' = lines.map String.toList := by
  refine ⟨String.intercalate "\n" lines, by rw [render, h]; rfl, ?_⟩
  rw [String.toList_intercalate]
  refine List.splitOn_intercalate '\n' (fun cs written => ?_) (by simpa using nonempty)
  obtain ⟨line, mem, rfl⟩ := List.mem_map.1 written
  exact flat line mem

end Diagnostic

/-! ## What is reported -/

/-- A span that an excerpt can show: it starts and ends with characters that are not blank, or it
is the end of the text. -/
inductive Span.Shown (s : Source) : Span → Prop
  | visible {span : Span} {before inside after : List Char} :
      span.Visible s before inside after → Shown s span
  | atEnd : Shown s (.single (s.start.after s.text.toList))

/-- A diagnostic says on one line what there is to say about a span that can be shown. -/
def Diagnostic.Reports (s : Source) (d : Diagnostic) : Prop :=
  (∃ span, d.span = some span ∧ span.Shown s) ∧ OneLine d.message

variable {s : Source}

theorem Span.Shown.source {span : Span} (h : span.Shown s) : span.first.source = s := by
  cases h with
  | visible visible => exact visible.source_eq
  | atEnd => exact Position.source_after _ _

theorem Token.shown {t : Token} (mem : t ∈ s.tokens) : t.span.Shown s := by
  cases isEnd : t.isEnd with
  | true =>
    rw [Source.span_of_isEnd mem isEnd]
    exact .atEnd
  | false =>
    obtain ⟨before, inside, after, visible⟩ := exists_visible mem isEnd
    exact .visible visible

namespace Program

variable {p : Program}

theorem mem_tokens (h : ofTokens s.tokens = .ok (.ok p)) :
    ∀ t ∈ p.definitions.flatMap Definition.tokens, t ∈ s.tokens :=
  fun _ mem => (definitions_isInfix h).1.subset mem

theorem Places.shown {span : Span} (placed : p.Places span)
    (h : ofTokens s.tokens = .ok (.ok p)) : span.Shown s := by
  obtain ⟨e, mem, rfl⟩ := placed
  have solid : ∀ t ∈ e.tokens, t.lexeme.Solid := fun t ht =>
    s.solid_tokens t (mem_tokens h t ((tokens_isInfix mem).subset ht))
  obtain ⟨before, inside, after, visible⟩ := (exact_of_mem_nodes h mem).exists_visible solid
  exact .visible visible

theorem Mentions.shown {name : Name} (mentioned : p.Mentions name)
    (h : ofTokens s.tokens = .ok (.ok p)) : name.span.Shown s :=
  Token.shown (mem_tokens h name.token mentioned)

theorem Quotes.shown {n : Numeral} {span : Span} (quoted : p.Quotes n span)
    (h : ofTokens s.tokens = .ok (.ok p)) : span.Shown s :=
  Places.shown ⟨.literal n span, quoted, rfl⟩ h

end Program

theorem Issue.shown {p : Program} {i : Issue} (about : i.About p)
    (h : Program.ofTokens s.tokens = .ok (.ok p)) {d : Diagnostic} (mem : d ∈ i.diagnostics) :
    ∃ span, d.span = some span ∧ span.Shown s := by
  obtain rfl | mem := List.mem_cons.1 mem
  · refine ⟨_, rfl, ?_⟩
    cases i with
    | builtinName | undefinedName | mismatch => exact Program.Mentions.shown about h
    | redeclared | notYetResolved => exact about.1.shown h
    | numberAsType | exponentOutOfRange | literalMisfit => exact Program.Quotes.shown about h
    | signedType | operationAsType | divisionByZero | valueMisfit | rounded =>
      exact Program.Places.shown about h
    | metatypeVariable | unknownType | unstorableType => exact about.2.shown h
  · obtain ⟨⟨span, message⟩, remark, rfl⟩ := Option.map_eq_some_iff.1 (Option.mem_toList.1 mem)
    refine ⟨span, rfl, ?_⟩
    cases i <;> cases remark <;> exact about.2.shown h

/-- What a compilation adds to a report. -/
theorem Source.exists_reports (s : Source) : ∃ result added,
    (∀ r : Report, r.compile s = .ok (result, r.pushAll added)) ∧ ∀ d ∈ added, d.Reports s := by
  obtain ⟨-, compiled⟩ | ⟨e, h, compiled⟩ | ⟨p, resolution, h, resolved, compiled⟩ :=
    s.compile_cases
  · refine ⟨_, _, compiled, fun d mem => ?_⟩
    obtain ⟨t, ht, hd⟩ := List.mem_filterMap.1 mem
    refine ⟨?_, Token.oneLine_message hd⟩
    obtain ⟨flaw, -, rfl⟩ := Option.map_eq_some_iff.1 hd
    exact ⟨t.span, rfl, Token.shown ht⟩
  · refine ⟨_, _, compiled, fun d mem => ?_⟩
    obtain rfl := List.mem_singleton.1 mem
    have found := Program.found_mem h
    refine ⟨⟨e.found.span, ?_, Token.shown found⟩,
      SyntaxError.oneLine_message (s.solid_tokens _ found)⟩
    unfold SyntaxError.diagnostic
    split <;> rfl
  · refine ⟨_, _, compiled, fun d mem => ?_⟩
    obtain ⟨i, hi, hd⟩ := List.mem_flatMap.1 mem
    have about := (Program.from_of_resolve resolved).2 i hi
    have solid : ∀ t ∈ p.definitions.flatMap Definition.tokens, t.lexeme.Solid := fun t ht =>
      s.solid_tokens t (Program.mem_tokens h t ht)
    exact ⟨Issue.shown about h hd, Issue.oneLine_message about solid hd⟩

/-! ## Excerpts -/

open Diagnostic in
theorem Span.Shown.excerpt {span : Span} (h : span.Shown s) : ∃ text excerpt,
    span.text = .ok text ∧ Diagnostic.excerpt span = .ok excerpt ∧
      (if span.isSingleLine then UnderlinesLine s span text excerpt
        else UnderlinesEnds span text excerpt) := by
  cases h with
  | @visible _ before inside after visible =>
    by_cases flat : '\n' ∈ inside
    · obtain ⟨excerpt, same, underlines⟩ := visible.underlinesEnds flat
      refine ⟨_, excerpt, visible.text_eq, same, ?_⟩
      rwa [if_neg (mt visible.isSingleLine_iff.1 (not_not.2 flat))]
    · obtain ⟨excerpt, same, underlines⟩ := visible.underlinesLine flat
      refine ⟨_, excerpt, visible.text_eq, same, ?_⟩
      rwa [if_pos (visible.isSingleLine_iff.2 flat)]
  | atEnd =>
    obtain ⟨excerpt, same, underlines⟩ := underlinesLine_end s
    have nothing := text_of_end (Position.ahead_start s).after_all
    have line : (single (s.start.after s.text.toList)).isSingleLine = true := beq_self_eq_true _
    refine ⟨"", excerpt, ?_, same, ?_⟩
    · exact nothing
    · rwa [if_pos line]

open Diagnostic in
/-- Whatever a compilation adds to a report, on top of what is there, points at a text of the source
and is written as a headline and an excerpt, a line each, if the path of the source is on one line.
The tildes of the excerpt stand under that text, on its line, or else on its first line and on its
last one. -/
theorem Report.excerpts_underline (s : Source) (path : '\n' ∉ s.path.toList) (r : Report) :
    ∃ result added, r.compile s = .ok (result, r.pushAll added) ∧ ∀ d ∈ added,
      ∃ span text excerpt rendered, d.span = some span ∧ span.text = .ok text ∧
        d.lines = .ok (d.headline span :: excerpt) ∧ d.render = .ok rendered ∧
        rendered.toList.splitOn '\n' = (d.headline span :: excerpt).map String.toList ∧
        (∀ line ∈ excerpt, '\n' ∉ line.toList) ∧
        (if span.isSingleLine then UnderlinesLine s span text excerpt
          else UnderlinesEnds span text excerpt) := by
  obtain ⟨result, added, compiled, reports⟩ := s.exists_reports
  refine ⟨result, added, compiled r, fun d mem => ?_⟩
  obtain ⟨⟨span, same, shown⟩, message⟩ := reports d mem
  obtain ⟨text, excerpt, plain, excerpted, underlines⟩ := shown.excerpt
  have flat : ∀ line ∈ excerpt, OneLine line := by
    split at underlines
    · exact underlines.oneLine
    · exact underlines.oneLine
  have lines := lines_eq same excerpted
  have headline : OneLine (d.headline span) := oneLine_headline (shown.source ▸ path) message
  obtain ⟨rendered, written, split⟩ :=
    render_eq lines (List.cons_ne_nil _ _) (List.forall_mem_cons.2 ⟨headline, flat⟩)
  exact ⟨span, text, excerpt, rendered, same, plain, lines, written, split, flat, underlines⟩

/-- A value that does not fit its type, on two lines, and a use of its name. -/
def folded : Source := ⟨0, "sum", "x : i1 = (100 +\r\n  100) ;\ny : i1 = x ;"⟩

/-- What is written about the two definitions. -/
def foldedLines : List (List String) :=
  [["resolver: sum:1:10:2:6: error: value `200` does not fit `i1`: out of range",
    "    1 | (100 +...",
    "      | ~~~~~~",
    "    2 | ...  100)",
    "      |    ~~~~~~"],
   ["resolver: sum:3:10:3:10: error: undefined symbol `x`",
    "    3 | y : i1 = x ;",
    "      |          ~"]]

theorem Report.excerpts_underline_folded :
    '\n' ∉ folded.path.toList ∧ ∃ result added,
      empty.compile folded = .ok (result, empty.pushAll added) ∧
      added.map (fun d => d.lines.toOption) = foldedLines.map some ∧
      ∀ d ∈ added, ∃ lines rendered, d.lines = .ok lines ∧ d.render = .ok rendered ∧
        rendered.toList.splitOn '\n' = lines.map String.toList := by
  have path : OneLine folded.path := lit (by decide)
  have written : (empty.compile folded).toOption.map
      (fun out => out.2.records.map fun d => d.lines.toOption) = some (foldedLines.map some) := by
    decide +kernel
  obtain ⟨result, added, compiled, reports⟩ := excerpts_underline folded path empty
  refine ⟨path, result, added, compiled, ?_, fun d mem => ?_⟩
  · rw [compiled] at written
    have lines : (empty.pushAll added).records.map (fun d => d.lines.toOption) =
        foldedLines.map some := Option.some.inj written
    rwa [records_pushAll] at lines
  · obtain ⟨span, text, excerpt, rendered, -, -, lines, render, split, -⟩ := reports d mem
    exact ⟨_, rendered, lines, render, split⟩

end ConstLang
