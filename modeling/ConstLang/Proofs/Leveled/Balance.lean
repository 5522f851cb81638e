import ConstLang.Proofs.Leveled.Program
import ConstLang.Proofs.Program.Append

/-!
# Open levels are balanced

Every rule hands back the number of open levels that it was handed, whether it finds an expression
or not, and has no more than the limit open on the way. Definitions therefore begin all their
expressions without an open level, and those in front of others have no part in whether the others
nest too deeply.
-/

namespace ConstLang

namespace Leveled

/-- Moves from a number of open levels that never lead past the limit. -/
def Bounded (levels : ℕ) (moves : List Move) : Prop :=
  ∀ front, front <+: moves → ∃ next ≤ maxNesting, Path levels front next

theorem Step.le {first next : ℕ} {move : Move} (h : Step first move next)
    (le : first ≤ maxNesting) : next ≤ maxNesting := by
  cases h with
  | begins => exact le
  | opens less => exact less
  | closes => exact Nat.le_trans (Nat.sub_le ..) le

theorem Path.bounded {first last : ℕ} {moves : List Move} (h : Path first moves last)
    (le : first ≤ maxNesting) : Bounded first moves := by
  induction h with
  | nil =>
    intro front within
    obtain rfl := List.prefix_nil.1 within
    exact ⟨_, le, .nil⟩
  | cons step _ ih =>
    intro front within
    obtain rfl | ⟨others, rfl, shorter⟩ := List.prefix_cons_iff.1 within
    · exact ⟨_, le, .nil⟩
    · obtain ⟨next, next_le, path⟩ := ih (step.le le) others shorter
      exact ⟨next, next_le, .cons step path⟩

/-- A reading that was handed a number of open levels has no more than the limit open on the way and
closes none that is not open. If it comes to something, then back to the levels it was handed. -/
structure Balanced {α : Type} {n : ℕ} (levels : ℕ) (x : Trace (Read α n)) : Prop where
  bounded : Bounded levels x.moves
  no_fault : ∀ fault, x.outcome ≠ .error (.fault fault)
  kept : ∀ read, x.outcome = .ok read → read.levels = levels ∧ Path levels x.moves levels

section

variable {env : Setting} {α γ : Type} {fits : γ → Prop} {view : α → Except Obstacle γ}
  {start levels n : ℕ} {x : Run (Read α n)} {y : Except Stop (γ × List Token)}

theorem Tracks.path (h : Tracks env fits view start levels x y) :
    ∃ last, Path start (x env.report).moves last := by
  cases h with
  | read hx path _ _ => exact ⟨_, by rwa [hx]⟩
  | stop hx path => exact ⟨_, by rwa [hx]⟩

theorem Tracks.balanced (h : Tracks env fits view levels levels x y) (le : levels ≤ maxNesting) :
    Balanced levels (x env.report) := by
  cases h with
  | read hx path _ _ =>
    rw [hx]
    refine ⟨path.bounded le, nofun, fun read same => ?_⟩
    cases same
    exact ⟨rfl, path⟩
  | stop hx path =>
    rw [hx]
    exact ⟨path.bounded le, nofun, nofun⟩

end

/-- No primary begins with a sign. -/
theorem balanced_primary_sign {levels : ℕ} (le : levels ≤ maxNesting) (s : Sign) (span : Span)
    (ts : List Token) (r : Report) :
    Balanced levels (primary .unchecked levels (s.mark.token span :: ts) r) := by
  have other : s.mark ≠ .leftParen := by cases s <;> decide
  rw [primary_mark other]
  refine ⟨Path.nil.bounded le, nofun, fun read same => ?_⟩
  cases same
  exact ⟨rfl, .nil⟩

/-- Any tokens, with nothing behind them and nothing checked. -/
def alone (r : Report) : Setting := .unchecked [] nofun r

theorem Rule.balanced (rule : Rule) {levels : ℕ} (le : levels ≤ maxNesting) (ts : List Token)
    (r : Report) : Balanced levels (rule.read .unchecked levels ts r) := by
  obtain ⟨room, total⟩ : ∃ room, levels + room = maxNesting := ⟨_, Nat.add_sub_cancel' le⟩
  have below := tracksBelow (alone r) (ts.length + 1)
  have short := ts.length.lt_succ_self
  have takes : ∀ t ∈ ts, (alone r).Takes t := fun t _ => Contracts.takes_unchecked t
  suffices Balanced levels (rule.read .unchecked levels (ts ++ []) r) by
    rwa [List.append_nil] at this
  have expression := (tracks_expression .valueExpr total takes).balanced le
  have factor : Tracks _ _ (found .valueExpr) levels levels _ _ := below.factor total short takes
  have unary : Tracks _ _ (found .valueExpr) levels levels _ _ := below.unary total short takes
  cases rule with
  | expression => exact expression
  | term =>
    rw [Leveled.expression] at expression
    exact expression
  | factor => exact factor.balanced le
  | unary => exact unary.balanced le
  | primary =>
    -- the plain parser reads signs and primaries in one, so tokens with a sign stand apart
    obtain ⟨s, span, us, rfl⟩ | unsigned := exists_sign_or_unsigned ts
    · exact balanced_primary_sign le s span _ r
    · rw [unary_of_unsigned ((alone r).unsigned unsigned)] at unary
      exact unary.balanced le

/-! ## Definitions -/

theorem exists_split_at_end (ts : List Token) :
    ∃ us behind, ts = us ++ behind ∧ (∀ t ∈ us, t.isEnd = false) ∧
      ∀ t, behind.head? = some t → t.isEnd = true := by
  refine ⟨_, _, (List.takeWhile_append_dropWhile (p := fun t => !t.isEnd)).symm,
    fun t mem => by simpa using List.mem_takeWhile_imp mem, fun t next => ?_⟩
  have stops := List.head?_dropWhile_not (fun t : Token => !t.isEnd) ts
  rw [next] at stops
  simpa using stops

/-- Definitions are read up to the first end mark. -/
theorem tracks_split {us behind : List Token} (inside : ∀ t ∈ us, t.isEnd = false)
    (ends : ∀ t, behind.head? = some t → t.isEnd = true) (r : Report) :
    Tracks (.unchecked behind ends r)
      (fun ds => ∀ d ∈ ds, (Setting.unchecked behind ends r).of (Definition.span d)) .ok 0 0
      (definitions .unchecked 0 (us ++ behind)) ((Parser.definitions us).map fun ds => (ds, [])) :=
  tracks_definitions inside fun t _ => Contracts.takes_unchecked t

/-- Definitions that are read with nothing left are what the plain parser reads. -/
theorem definitions_of_outcome {before : List Token} {r : Report}
    {read : Read (List Definition) before.length}
    (h : (definitions .unchecked 0 before r).outcome = .ok read) (none_left : read.rest = []) :
    Parser.definitions before = .ok read.value := by
  obtain ⟨us, behind, rfl, inside, ends⟩ := exists_split_at_end before
  have tracks := tracks_split inside ends r
  cases plain : Parser.definitions us with
  | error stop =>
    rw [plain] at tracks
    obtain ⟨moves, found⟩ := tracks.of_error
    change definitions .unchecked 0 (us ++ behind) r = _ at found
    rw [found] at h
    cases h
  | ok ds =>
    rw [plain] at tracks
    obtain ⟨moves, short, found, -⟩ := tracks.of_ok
    change definitions .unchecked 0 (us ++ behind) r = _ at found
    rw [found] at h
    cases h
    change behind = [] at none_left
    subst none_left
    exact (congrArg Parser.definitions (List.append_nil us)).trans plain

/-- Definitions that the plain parser reads leave nothing. -/
theorem exists_outcome_of_definitions {before : List Token} {ds : List Definition}
    (h : Parser.definitions before = .ok ds) (r : Report) :
    ∃ read, (definitions .unchecked 0 before r).outcome = .ok read ∧ read.rest = [] := by
  have inside : ∀ t ∈ before, t.isEnd = false := fun t mem =>
    Program.isEnd_of_mem_derived (Parser.definitions_eq_ok_iff.1 h).1 mem
  have tracks : Tracks (alone r) _ .ok 0 0 (definitions .unchecked 0 (before ++ [])) _ :=
    tracks_definitions inside fun t _ => Contracts.takes_unchecked t
  rw [h, List.append_nil] at tracks
  obtain ⟨moves, short, found, -⟩ := tracks.of_ok
  exact ⟨_, congrArg Trace.outcome found, rfl⟩

/-- Definitions in front of other tokens leave an error about those as it is. -/
theorem program_append_eq_error_iff {before : List Token} {ds : List Definition}
    (h : Parser.definitions before = .ok ds) (after : List Token) (e : SyntaxError) :
    program (before ++ after) = .ok (.error e) ↔ program after = .ok (.error e) := by
  rw [program_eq, program_eq, Program.ofTokens_append h]
  rcases Program.ofTokens after with fault | e' | p <;> simp [Except.map]

theorem path_definitions (ts : List Token) (r : Report) :
    ∃ last, Path 0 (definitions .unchecked 0 ts r).moves last := by
  obtain ⟨us, behind, rfl, inside, ends⟩ := exists_split_at_end ts
  have tracks := tracks_split inside ends r
  exact tracks.path

/-! ## Balance -/

theorem Tracks.exists_read {env : Setting} {fits : Expr → Prop} {wanted : Wanted}
    {start levels n : ℕ} {x : Run (Read (Option Expr) n)} {e : Expr} {rest : List Token}
    (h : Tracks env fits (found wanted) start levels x (.ok (e, rest))) :
    ∃ read, (x env.report).outcome = .ok read ∧ read.value = some e := by
  generalize same : (.ok (e, rest) : Except Stop (Expr × List Token)) = y at h
  cases h with
  | @read moves a rest short hx =>
    cases a with
    | none => cases same
    | some e' =>
      cases same
      exact ⟨_, congrArg Trace.outcome hx, rfl⟩
  | stop => cases same

theorem exists_nesting_deepest :
    ∃ found, program (Program.deepest (maxNesting + 1)).tokens =
      .ok (.error ⟨.nesting, found⟩) := by
  have exceeds : maxNesting < (Expr.deepest Program.sample (maxNesting + 1)).peak := by
    rw [Expr.peak_deepest]
    exact maxNesting.lt_succ_self
  obtain ⟨⟨obstacle, found⟩, stopped, code⟩ := Program.ofTokens_of_exceeds
    (Program.ends_tokens _) (Program.derives_deepest _) ⟨_, Program.mem_exprs_deepest _, exceeds⟩
  cases obstacle with
  | nesting => exact ⟨found, by rw [program_eq, stopped]⟩
  | unmet wanted => cases wanted <;> cases code

/-- Every rule comes back to the open levels that it was handed, whether it comes to an expression
or to none, and on the way it has no more than the limit open and closes none that is not open. The
same holds of definitions in a row, which begin each type and each value without an open level.
Whether tokens nest too deeply, and where, is the same behind any definitions as without them. The
rules read what the plain parser reads. -/
theorem levels_balanced :
    (∀ (rule : Rule) (levels : ℕ) (ts : List Token) (r : Report), levels ≤ maxNesting →
      Balanced levels (rule.read .unchecked levels ts r)) ∧
    (∀ ts r, Bounded 0 (definitions .unchecked 0 ts r).moves ∧
      ∀ levels, .begins levels ∈ (definitions .unchecked 0 ts r).moves → levels = 0) ∧
    (∀ before r read, (definitions .unchecked 0 before r).outcome = .ok read → read.rest = [] →
      ∀ after found, program (before ++ after) = .ok (.error ⟨.nesting, found⟩) ↔
        program after = .ok (.error ⟨.nesting, found⟩)) ∧
    ∀ ts, program ts = Program.ofTokens ts := by
  refine ⟨fun rule levels ts r le => rule.balanced le ts r, fun ts r => ?_,
    fun before r read h none_left after found =>
      program_append_eq_error_iff (definitions_of_outcome h none_left) after _, program_eq⟩
  obtain ⟨last, path⟩ := path_definitions ts r
  exact ⟨path.bounded (Nat.zero_le _), fun levels mem => path.begins mem⟩

/-- The value of a deepest program opens all levels that are allowed and closes them again, a rule
that finds nothing leaves them all open, and a program that nests too deeply does so behind a
deepest one. -/
theorem levels_balanced_deepest :
    (∃ read,
      (Rule.expression.read .unchecked 0 (Expr.deepest Program.sample maxNesting).tokens
          .empty).outcome = .ok read ∧
        read.value = some (Expr.deepest Program.sample maxNesting) ∧ read.levels = 0) ∧
    (∃ read,
      (Rule.primary.read .unchecked maxNesting [Mark.semicolon.token Program.sample.span]
          .empty).outcome = .ok read ∧ read.value = none ∧ read.levels = maxNesting) ∧
    ∃ found,
      program ((Program.deepest maxNesting).definitions.flatMap Definition.tokens ++
        (Program.deepest (maxNesting + 1)).tokens) = .ok (.error ⟨.nesting, found⟩) := by
  obtain ⟨rules, -, independent, -⟩ := levels_balanced
  refine ⟨?_, ?_, ?_⟩
  · let e := Expr.deepest Program.sample maxNesting
    have fits : e.peak ≤ maxNesting := (Expr.peak_deepest Program.sample maxNesting).le
    have closed : ∀ additive, Parser.Closed additive [] := fun _ _ _ _ => nofun
    have reads := Parser.reads (Expr.standard_deepest Program.sample maxNesting)
    have plain := (reads.whole maxNesting .valueExpr closed).1 fits
    rw [List.append_nil] at plain
    have tracks : Tracks (alone .empty) _ _ 0 0 (expression .unchecked 0 (e.tokens ++ [])) _ :=
      tracks_expression .valueExpr (Nat.zero_add maxNesting) fun t _ => Contracts.takes_unchecked t
    rw [plain, List.append_nil] at tracks
    obtain ⟨read, outcome, value⟩ := tracks.exists_read
    have kept := (rules .expression 0 e.tokens .empty (by decide)).kept read outcome
    exact ⟨read, outcome, value, kept.1⟩
  · have outcome : ∃ read, (Rule.primary.read .unchecked maxNesting
        [Mark.semicolon.token Program.sample.span] .empty).outcome = .ok read ∧
          read.value = none := by
      change ∃ read, (primary .unchecked maxNesting _ .empty).outcome = .ok read ∧ _
      rw [primary_mark (by decide)]
      exact ⟨_, rfl, rfl⟩
    obtain ⟨read, outcome, value⟩ := outcome
    exact ⟨read, outcome, value, ((rules .primary maxNesting _ _ le_rfl).kept read outcome).1⟩
  · have standard := (derivesProgram_iff.1 (Program.derives_deepest maxNesting)).2
    have accepted := (Parser.reads_definitions standard).1 (Program.peak_deepest maxNesting)
    obtain ⟨read, outcome, none_left⟩ := exists_outcome_of_definitions accepted .empty
    obtain ⟨found, stopped⟩ := exists_nesting_deepest
    exact ⟨found, (independent _ _ read outcome none_left _ found).2 stopped⟩

end Leveled

end ConstLang
