import ConstLang.Proofs.Program.Reading
import ConstLang.Proofs.Program.Soundness
import Mathlib.Data.List.TakeWhile

/-!
# Accepted tokens

Tokens are accepted if they derive a program up to their first end mark and no expression of it
opens too many levels. The program is then the one that they derive.
-/

namespace ConstLang

namespace Parser

variable {ts : List Token} {ds : List Definition}

theorem definitions_of_derives (h : DerivesDefinitions ts ds)
    (fits : ∀ e ∈ ds.flatMap Definition.exprs, e.peak ≤ maxNesting) : definitions ts = .ok ds := by
  obtain ⟨rfl, standard⟩ := derivesDefinitions_iff.1 h
  exact (reads_definitions standard).1 fits

theorem stops_of_derives (h : DerivesDefinitions ts ds)
    (exceeds : ∃ e ∈ ds.flatMap Definition.exprs, maxNesting < e.peak) :
    Stops (definitions ts) := by
  obtain ⟨rfl, standard⟩ := derivesDefinitions_iff.1 h
  exact (reads_definitions standard).2 exceeds

theorem definitions_eq_ok_iff :
    definitions ts = .ok ds ↔
      DerivesDefinitions ts ds ∧ ∀ e ∈ ds.flatMap Definition.exprs, e.peak ≤ maxNesting := by
  refine ⟨fun h => ?_, fun h => definitions_of_derives h.1 h.2⟩
  have derived := derives_of_definitions h
  refine ⟨derived, fun e mem => ?_⟩
  by_contra exceeds
  obtain ⟨rest, stopped⟩ := stops_of_derives derived ⟨e, mem, by omega⟩
  rw [h] at stopped
  cases stopped

end Parser

namespace Program

variable {ts : List Token} {p : Program}

/-- Tokens up to the first end mark, and that mark. -/
def upToEnd (ts : List Token) : List Token :=
  (ts.takeWhile fun t => !t.isEnd) ++ (ts.dropWhile fun t => !t.isEnd).take 1

theorem upToEnd_isPrefix (ts : List Token) : upToEnd ts <+: ts := by
  refine ⟨(ts.dropWhile fun t => !t.isEnd).drop 1, ?_⟩
  rw [upToEnd, List.append_assoc, List.take_append_drop, List.takeWhile_append_dropWhile]

theorem token_of_isEnd {t : Token} (h : t.isEnd = true) : t = Mark.endOfFile.token t.span := by
  have same : t.lexeme = .mark .endOfFile := by simpa [Token.isEnd] using h
  rw [Mark.token, ← same]

/-- Tokens that end in an end mark split at the first one. -/
theorem splitAtEnd_of_ends (ends : ts.getLast?.any Token.isEnd = true) :
    ∃ body endMark, upToEnd ts = body ++ [Mark.endOfFile.token endMark] ∧
      splitAtEnd ts = .ok (body, Mark.endOfFile.token endMark) := by
  obtain ⟨last, hlast, isEnd⟩ := (Option.any_eq_true _ _).1 ends
  have nonempty : ts.dropWhile (fun t => !t.isEnd) ≠ [] := by
    intro empty
    have open_last := List.dropWhile_eq_nil_iff.1 empty last (List.mem_of_getLast? hlast)
    simp [isEnd] at open_last
  obtain ⟨t, rest, split⟩ := List.exists_cons_of_ne_nil nonempty
  have first := List.head_dropWhile_not (fun t : Token => !t.isEnd) nonempty
  simp only [split, List.head_cons, Bool.not_eq_eq_eq_not, Bool.not_false] at first
  refine ⟨ts.takeWhile fun t => !t.isEnd, t.span, ?_, ?_⟩
  · rw [upToEnd, split, ← token_of_isEnd first]
    rfl
  · rw [splitAtEnd, hlast, split, ← token_of_isEnd first]
    simp [isEnd]

theorem splitAtEnd_of_not_ends (h : ¬ ts.getLast?.any Token.isEnd = true) :
    splitAtEnd ts = .error .openStream := by
  unfold splitAtEnd
  split
  · next last first after hlast _ =>
    rw [hlast, Option.any_some] at h
    exact if_neg h
  · rfl

theorem ends_of_ofTokens {r : Except SyntaxError Program} (h : ofTokens ts = .ok r) :
    ts.getLast?.any Token.isEnd = true := by
  obtain ⟨⟨body, endMark⟩, split, -⟩ := bind_eq_ok.1 h
  unfold splitAtEnd at split
  split at split
  · next last _ _ hlast _ =>
    split at split
    · next isEnd => simp [hlast, isEnd]
    · cases split
  · cases split

theorem derivesProgram_append_iff {body : List Token} {endMark : Span} :
    DerivesProgram (body ++ [Mark.endOfFile.token endMark]) p ↔
      DerivesDefinitions body p.definitions ∧ p.endMark = endMark := by
  constructor
  · intro h
    generalize same : body ++ [Mark.endOfFile.token endMark] = ts at h
    obtain ⟨endMark', derived⟩ := h
    obtain ⟨rfl, tail⟩ := List.append_inj' same rfl
    simp only [Mark.token, List.cons.injEq, Token.mk.injEq, true_and, and_true] at tail
    exact ⟨derived, tail.symm⟩
  · rintro ⟨derived, rfl⟩
    exact .mk p.endMark derived

theorem ofTokens_ne_fault (ends : ts.getLast?.any Token.isEnd = true) :
    ∃ r, ofTokens ts = .ok r := by
  obtain ⟨body, endMark, -, split⟩ := splitAtEnd_of_ends ends
  rw [ofTokens, split, ok_bind]
  dsimp only
  cases Parser.definitions body with
  | ok ds => exact ⟨_, rfl⟩
  | error stop => exact ⟨_, rfl⟩

theorem ofTokens_eq_ok_iff (ends : ts.getLast?.any Token.isEnd = true) :
    ofTokens ts = .ok (.ok p) ↔
      DerivesProgram (upToEnd ts) p ∧ ∀ e ∈ p.exprs, e.peak ≤ maxNesting := by
  obtain ⟨body, endMark, consumed, split⟩ := splitAtEnd_of_ends ends
  have accepted : ofTokens ts = .ok (.ok p) ↔
      Parser.definitions body = .ok p.definitions ∧ p.endMark = endMark := by
    rw [ofTokens, split, ok_bind]
    dsimp only
    cases Parser.definitions body with
    | ok ds =>
      obtain ⟨ds', endMark'⟩ := p
      simp [pure, Except.pure, Mark.token, eq_comm]
    | error stop => simp [pure, Except.pure]
  rw [accepted, consumed, derivesProgram_append_iff, Parser.definitions_eq_ok_iff]
  exact and_right_comm

/-- A program that opens too many levels is rejected for its nesting. -/
theorem ofTokens_of_exceeds (ends : ts.getLast?.any Token.isEnd = true)
    (derived : DerivesProgram (upToEnd ts) p) (exceeds : ∃ e ∈ p.exprs, maxNesting < e.peak) :
    ∃ err, ofTokens ts = .ok (.error err) ∧ err.diagnostic.code = some .deepNesting := by
  obtain ⟨body, endMark, consumed, split⟩ := splitAtEnd_of_ends ends
  rw [consumed, derivesProgram_append_iff] at derived
  obtain ⟨rest, stopped⟩ := Parser.stops_of_derives derived.1 exceeds
  refine ⟨⟨.nesting, rest.head?.getD (Mark.endOfFile.token endMark)⟩, ?_, rfl⟩
  rw [ofTokens, split, ok_bind]
  dsimp only
  rw [stopped]
  rfl

/-! ## The tokens of a program -/

theorem isEnd_token (m : Mark) (span : Span) : (m.token span).isEnd = decide (m = .endOfFile) := by
  simp [Mark.token, Token.isEnd]

theorem isEnd_of_mem_expr {e : Expr} {t : Token} (h : t ∈ e.tokens) : t.isEnd = false := by
  induction e with
  | literal n span =>
    rw [Expr.tokens, List.mem_singleton] at h
    rw [h]
    rfl
  | access n =>
    rw [Expr.tokens, List.mem_singleton] at h
    rw [h]
    rfl
  | group opening inner closing ih =>
    simp only [Expr.tokens, List.mem_cons, List.mem_append, List.not_mem_nil, or_false] at h
    obtain (rfl | mem) | rfl := h
    · rfl
    · exact ih mem
    · rfl
  | unary s span operand ih =>
    simp only [Expr.tokens, List.mem_cons] at h
    obtain rfl | mem := h
    · cases s <;> rfl
    · exact ih mem
  | binary op span left right ihl ihr =>
    simp only [Expr.tokens, List.mem_cons, List.mem_append] at h
    obtain mem | rfl | mem := h
    · exact ihl mem
    · cases op <;> rfl
    · exact ihr mem

theorem isEnd_of_mem_definition {d : Definition} {t : Token} (h : t ∈ d.tokens) :
    t.isEnd = false := by
  simp only [Definition.tokens, List.mem_cons, List.mem_append, List.not_mem_nil, or_false] at h
  obtain ((rfl | rfl | mem) | rfl | mem) | rfl := h
  · rfl
  · rfl
  · exact isEnd_of_mem_expr mem
  · rfl
  · exact isEnd_of_mem_expr mem
  · rfl

/-- The tokens of a program have no end mark but their last token. -/
theorem upToEnd_tokens (p : Program) : upToEnd p.tokens = p.tokens := by
  have body : ∀ t ∈ p.definitions.flatMap Definition.tokens, (!t.isEnd) = true := by
    intro t mem
    obtain ⟨d, -, inside⟩ := List.mem_flatMap.1 mem
    simp [isEnd_of_mem_definition inside]
  rw [upToEnd, tokens, List.takeWhile_append_of_pos body, List.dropWhile_append_of_pos body]
  simp [isEnd_token]

theorem ends_tokens (p : Program) : p.tokens.getLast?.any Token.isEnd = true := by
  simp [tokens, isEnd_token]

/-- The tokens of a program are read back as the program, if its expressions have a standard shape
and open no more levels than are allowed. -/
theorem ofTokens_tokens_iff (p : Program) :
    ofTokens p.tokens = .ok (.ok p) ↔ ∀ e ∈ p.exprs, e.Standard ∧ e.peak ≤ maxNesting := by
  rw [ofTokens_eq_ok_iff (ends_tokens p), upToEnd_tokens, derivesProgram_iff]
  simp [forall_and]

/-- The program `n : n = value ;`. -/
def single (n : Name) (value : Expr) : Program :=
  ⟨[⟨n, n.span, .access n, n.span, value, n.span⟩], n.span⟩

theorem exprs_single (n : Name) (value : Expr) : (single n value).exprs = [.access n, value] := rfl

theorem derives_single {n : Name} {value : Expr} (h : value.Standard) :
    DerivesProgram (upToEnd (single n value).tokens) (single n value) := by
  rw [upToEnd_tokens, derivesProgram_iff, exprs_single]
  refine ⟨rfl, fun e mem => ?_⟩
  simp only [List.mem_cons, List.not_mem_nil, or_false] at mem
  obtain rfl | rfl := mem
  · trivial
  · exact h

theorem peak_single {n : Name} {value : Expr} {room : ℕ} (fits : value.peak ≤ room) :
    ∀ e ∈ (single n value).exprs, e.peak ≤ room := by
  simp [exprs_single, fits, Expr.peak]

/-! ## What is accepted -/

/-- Tokens that end in an end mark are accepted exactly as the program that they derive up to the
first one, if its expressions open no more levels than are allowed, and else rejected for it. -/
theorem accepts_iff_derives (ends : ts.getLast?.any Token.isEnd = true) :
    (∃ r, ofTokens ts = .ok r) ∧
    (∀ p, ofTokens ts = .ok (.ok p) ↔
      DerivesProgram (upToEnd ts) p ∧ ∀ e ∈ p.exprs, e.peak ≤ maxNesting) ∧
    ∀ p, DerivesProgram (upToEnd ts) p → (∃ e ∈ p.exprs, maxNesting < e.peak) →
      ∃ err, ofTokens ts = .ok (.error err) ∧ err.diagnostic.code = some .deepNesting :=
  ⟨ofTokens_ne_fault ends, fun _ => ofTokens_eq_ok_iff ends, fun _ => ofTokens_of_exceeds ends⟩

/-- A name to build programs of. -/
def sample : Name := ⟨"x", .single (Source.start ⟨0, "", ""⟩)⟩

/-- A program with a deepest value for this many levels. -/
def deepest (room : ℕ) : Program := single sample (Expr.deepest sample room)

theorem derives_deepest (room : ℕ) :
    DerivesProgram (upToEnd (deepest room).tokens) (deepest room) :=
  derives_single (Expr.standard_deepest sample room)

theorem peak_deepest (room : ℕ) : ∀ e ∈ (deepest room).exprs, e.peak ≤ room :=
  peak_single (Expr.peak_deepest sample room).le

theorem mem_exprs_deepest (room : ℕ) : Expr.deepest sample room ∈ (deepest room).exprs := by
  simp [deepest, exprs_single]

theorem accepts_iff_derives_deepest :
    ofTokens (deepest maxNesting).tokens = .ok (.ok (deepest maxNesting)) ∧
    ∃ err, ofTokens (deepest (maxNesting + 1)).tokens = .ok (.error err) ∧
      err.diagnostic.code = some .deepNesting := by
  constructor
  · obtain ⟨-, accepts, -⟩ := accepts_iff_derives (ends_tokens (deepest maxNesting))
    exact (accepts _).2 ⟨derives_deepest _, peak_deepest _⟩
  · obtain ⟨-, -, rejects⟩ := accepts_iff_derives (ends_tokens (deepest (maxNesting + 1)))
    refine rejects _ (derives_deepest _) ⟨_, mem_exprs_deepest _, ?_⟩
    rw [Expr.peak_deepest]
    exact maxNesting.lt_succ_self

/-- An accepted program walks back to the tokens up to the first end mark, and its operators stand
over operands that bind as they should. -/
theorem tokens_of_accepted (h : ofTokens ts = .ok (.ok p)) :
    p.tokens = upToEnd ts ∧ upToEnd ts <+: ts ∧ ∀ e ∈ p.exprs, e.Standard := by
  obtain ⟨derived, -⟩ := (ofTokens_eq_ok_iff (ends_of_ofTokens h)).1 h
  obtain ⟨walk, standard⟩ := derivesProgram_iff.1 derived
  exact ⟨walk.symm, upToEnd_isPrefix ts, standard⟩

/-- The value `x - x - x * -x` in a program. -/
def difference : Program :=
  let x : Expr := .access sample
  single sample (.binary .subtract sample.span (.binary .subtract sample.span x x)
    (.binary .multiply sample.span x (.unary .minus sample.span x)))

theorem tokens_of_accepted_difference :
    ofTokens difference.tokens = .ok (.ok difference) ∧
      upToEnd difference.tokens = difference.tokens ∧ ∀ e ∈ difference.exprs, e.Standard := by
  have accepted : ofTokens difference.tokens = .ok (.ok difference) :=
    (ofTokens_tokens_iff difference).2 (by decide)
  obtain ⟨walk, -, standard⟩ := tokens_of_accepted accepted
  exact ⟨accepted, walk.symm, standard⟩

/-! ## How deep accepted trees are -/

/-- Accepted trees are deeper than the allowed nesting where the tokens derive such trees that open
no more levels than are allowed. They are never deeper than the square of the allowed nesting and
twice the nesting again, and only the levels that are open at once are rejected. -/
theorem depth_of_accepted (ends : ts.getLast?.any Token.isEnd = true) :
    (∀ p, ofTokens ts = .ok (.ok p) →
      ∀ e ∈ p.exprs, e.depth ≤ maxNesting * (maxNesting + 2)) ∧
    ((∃ p, ofTokens ts = .ok (.ok p) ∧ ∃ e ∈ p.exprs, maxNesting < e.depth) ↔
      ∃ p, DerivesProgram (upToEnd ts) p ∧ (∀ e ∈ p.exprs, e.peak ≤ maxNesting) ∧
        ∃ e ∈ p.exprs, maxNesting < e.depth) ∧
    ∀ p, DerivesProgram (upToEnd ts) p →
      ((∃ err, ofTokens ts = .ok (.error err) ∧ err.diagnostic.code = some .deepNesting) ↔
        ∃ e ∈ p.exprs, maxNesting < e.peak) := by
  refine ⟨fun p h e mem => ?_, ?_, fun p derived => ⟨?_, ofTokens_of_exceeds ends derived⟩⟩
  · obtain ⟨derived, fits⟩ := (ofTokens_eq_ok_iff ends).1 h
    exact ((derivesProgram_iff.1 derived).2 e mem).depth_le (fits e mem)
  · simp only [ofTokens_eq_ok_iff ends, and_assoc]
  · rintro ⟨err, error, -⟩
    by_contra none_exceeds
    simp only [not_exists, not_and, not_lt] at none_exceeds
    rw [(ofTokens_eq_ok_iff ends).2 ⟨derived, none_exceeds⟩] at error
    cases error

theorem depth_of_accepted_deepest :
    ∃ p, ofTokens (deepest maxNesting).tokens = .ok (.ok p) ∧
      ∃ e ∈ p.exprs, maxNesting < e.depth := by
  obtain ⟨-, deeper, -⟩ := depth_of_accepted (ends_tokens (deepest maxNesting))
  refine deeper.2 ⟨_, derives_deepest _, peak_deepest _, _, mem_exprs_deepest _, ?_⟩
  rw [Expr.depth_deepest]
  decide

end Program

end ConstLang
