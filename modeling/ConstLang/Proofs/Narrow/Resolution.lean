import ConstLang.Proofs.Narrow.Evaluation
import ConstLang.Proofs.Program.Spans
import ConstLang.Proofs.Resolution.Origin

/-!
# Narrow exponents suffice for programs

A variable starts over at size one, so the exponents in an expression are bounded by its number of
leaves alone, however long the chain of definitions before it is. A text has more characters than
an expression in it has leaves. So only a text of an absurd length could make an exponent overflow.
-/

namespace ConstLang

/-! ## Runs -/

namespace Narrow

variable {p q : Pass}

theorem mapError_ok {ε ε' α : Type} (f : ε → ε') (a : α) :
    (Except.ok a : Except ε α).mapError f = .ok a := rfl

theorem settle_eq (sized : p.scope.symbols.Sized) {d : Definition} (modest : Modest d.value)
    (h : p.resolve d = .ok q) : settle p d = .ok q := by
  unfold Pass.resolve at h
  obtain ⟨settled, hs, h⟩ := bind_eq_ok.1 h
  unfold settle
  rw [define_eq sized modest, mapError_ok, ok_bind, hs, mapError_ok, ok_bind]
  cases hv : (p.scope.define d).result with
  | none =>
    rw [hv] at h
    exact congrArg Except.ok (Except.ok.inj h)
  | some v =>
    rw [hv] at h
    obtain ⟨inserted, hi, h⟩ := bind_eq_ok.1 h
    dsimp only
    rw [hi, mapError_ok, ok_bind]
    exact congrArg Except.ok (Except.ok.inj h)

/-- Each step keeps the size of the variables, on which the next one relies. -/
theorem foldlM_settle {ds : List Definition} (modest : ∀ d ∈ ds, Modest d.value)
    (sized : p.scope.symbols.Sized) (h : ds.foldlM Pass.resolve p = .ok q) :
    ds.foldlM settle p = .ok q := by
  induction ds generalizing p with
  | nil => exact congrArg Except.ok (Except.ok.inj h)
  | cons d ds ih =>
    rw [List.foldlM_cons] at h ⊢
    obtain ⟨p', resolved, rest⟩ := bind_eq_ok.1 h
    have one : [d].foldlM Pass.resolve p = .ok p' := by
      rw [List.foldlM_cons, resolved]
      rfl
    rw [settle_eq sized (modest d List.mem_cons_self) resolved, ok_bind]
    exact ih (fun e he => modest e (List.mem_cons_of_mem _ he))
      (Symbols.inductive_sized.of_resolve one sized) rest

theorem resolve_eq {p : Program} (modest : ∀ d ∈ p.definitions, Modest d.value) {r : Resolution}
    (h : p.resolve = .ok r) : resolve p = .ok r := by
  obtain ⟨collected, hc, h⟩ := bind_eq_ok.1 h
  obtain ⟨resolved, hr, h⟩ := bind_eq_ok.1 h
  obtain ⟨symbols, hf, h⟩ := bind_eq_ok.1 h
  have queued := (Program.from_of_collect hc).pendingInOrder
  have sized := Symbols.inductive_sized.of_collect hc
  have settled := foldlM_settle (p := Pass.start collected.scope)
    (fun d hd => modest d (queued d hd)) sized hr
  unfold resolve
  rw [hc, mapError_ok, ok_bind, settled, ok_bind, hf, mapError_ok, ok_bind]
  exact congrArg Except.ok (Except.ok.inj h)

end Narrow

/-! ## Texts -/

theorem Expr.leaves_le_length_tokens (e : Expr) : e.leaves ≤ e.tokens.length := by
  induction e with
  | literal n span | access name => exact le_rfl
  | group opening inner closing ih =>
    simp only [leaves, tokens, List.length_append, List.length_cons]
    omega
  | unary sign signSpan operand ih =>
    rw [leaves, tokens, List.length_cons]
    omega
  | binary op opSpan left right ihl ihr =>
    simp only [leaves, tokens, List.length_append, List.length_cons]
    omega

/-- The values in a text of less than a tebibyte are not too large. -/
theorem Program.modest_of_ofTokens {s : Source} {p : Program} (short : s.text.utf8ByteSize < 2 ^ 40)
    (h : ofTokens s.tokens = .ok (.ok p)) : ∀ d ∈ p.definitions, Narrow.Modest d.value := by
  intro d mem
  have length := Utf8.length_le_size s.text.toList
  rw [← Utf8.utf8ByteSize_eq] at length
  have tiles := s.tiles
  have value : d.value.tokens <:+: s.tokens :=
    (tokens_isInfix ((contains_exprs mem).2 _ d.value.mem_nodes_self)).trans
      (definitions_isInfix h).1
  have leaves := d.value.leaves_le_length_tokens.trans (value.length_le.trans tiles.length_le)
  refine ⟨by unfold Narrow.room; omega, fun t ht => ?_⟩
  have chars := tiles.length_chars_le t (value.subset ht)
  omega

/-- No exponent overflows. Where a program resolves a definition, a successful expression comes to
a number whose exponent, and the position of whose leading digit, is at most 400 for each leaf,
however many definitions there were before; and with narrow exponents the program of a text of less
than 2 ^ 40 bytes is resolved as it is without a bound on exponents. -/
theorem Program.exponents_bounded :
    (∀ (p : Program) (s : Scope) (d : Definition), p.Visits s d →
      ∀ (type : Scalar) (e : Expr) (a : Annotated), type.isStorable = true →
        (s.eval (.scalar type) e).result = some a →
        ∃ x, a.number? = some x ∧ |x.exponent| ≤ 400 * e.leaves ∧ |x.leading| ≤ 400 * e.leaves) ∧
    ∀ (s : Source) (p : Program), s.text.utf8ByteSize < 2 ^ 40 →
      ofTokens s.tokens = .ok (.ok p) → ∃ r, p.resolve = .ok r ∧ Narrow.resolve p = .ok r := by
  refine ⟨fun p s d visited type e a storable h => ?_, fun s p short parsed => ?_⟩
  · have sized := Symbols.inductive_sized.of_visits visited
    obtain ⟨x, hx, size⟩ := Scope.eval_sized sized storable h
    have bounds := size.bounds
    exact ⟨x, Annotated.number?_of_valuation hx, abs_le.2 ⟨by omega, by omega⟩,
      abs_le.2 ⟨by omega, by omega⟩⟩
  · obtain ⟨complete, issues, resolved⟩ := p.exists_resolve_eq
    exact ⟨_, resolved, Narrow.resolve_eq (modest_of_ofTokens short parsed) resolved⟩

/-! `x : f8 = 4e300 ; y : f8 = x * x / x ;` -/

namespace Squared

def origin : Span := .single (Source.start ⟨0, "", ""⟩)

def name (text : String) : Name := ⟨text, origin⟩

def large : Expr := .literal ⟨⟨"4", by decide⟩, none, some ⟨'e', none, ⟨"300", by decide⟩⟩⟩ origin

/-- The square is out of range, and is not bound. -/
def quotient : Expr :=
  .binary .divide origin (.binary .multiply origin (.access (name "x")) (.access (name "x")))
    (.access (name "x"))

def definitionX : Definition := ⟨name "x", origin, .access (name "f8"), origin, large, origin⟩

def definitionY : Definition := ⟨name "y", origin, .access (name "f8"), origin, quotient, origin⟩

def program : Program := ⟨[definitionX, definitionY], origin⟩

def number (x : Decimal) : Annotated := .leaf origin ⟨.scalar .f8, some (.number x)⟩

def variableX : Variable :=
  ⟨name "x", .f8, .leaf origin ⟨.metatype, some (.type (.scalar .f8))⟩, large, number ⟨4, 300⟩,
    ⟨.scalar .f8, some (.number ⟨4, 300⟩)⟩⟩

def scope : Scope := ⟨⟨[variableX]⟩, [definitionY], ["x", "y"]⟩

def square : Annotated :=
  .two origin ⟨.scalar .f8, some (.number ⟨16, 600⟩)⟩ (number ⟨4, 300⟩) (number ⟨4, 300⟩)

def value : Annotated :=
  .two origin ⟨.scalar .f8, some (.number ⟨4, 300⟩)⟩ square (number ⟨4, 300⟩)

def source : Source := ⟨0, "", "x : f8 = 4e300 ; y : f8 = x * x / x ;"⟩

end Squared

open Squared in
theorem Program.exponents_bounded_squared :
    (program.Visits scope definitionY ∧ (scope.eval (.scalar .f8) quotient).result = some value ∧
      ∃ x : Decimal, x = ⟨4, 300⟩ ∧ |x.exponent| ≤ 400 * 3 ∧ |x.leading| ≤ 400 * 3) ∧
    ∃ p r, ofTokens source.tokens = .ok (.ok p) ∧ p.definitions.length = 2 ∧ p.resolve = .ok r ∧
      Narrow.resolve p = .ok r := by
  obtain ⟨bounded, resolves⟩ := exponents_bounded
  constructor
  · have visits : program.Visits scope definitionY :=
      ⟨⟨⟨⟨[]⟩, [definitionX, definitionY], ["x", "y"]⟩, true, []⟩, [definitionX], [],
        ⟨scope, true, []⟩, by decide +kernel, by decide +kernel, by decide +kernel, rfl⟩
    have evaluated : (scope.eval (.scalar .f8) quotient).result = some value := by decide +kernel
    obtain ⟨x, hx, exponent, leading⟩ := bounded _ _ _ visits .f8 quotient value rfl evaluated
    exact ⟨visits, evaluated, x, (Option.some.inj hx).symm, exponent, leading⟩
  · have read : ((ofTokens source.tokens).toOption.bind Except.toOption).map
        (fun p => p.definitions.length) = some 2 := by
      decide +kernel
    rcases parsed : ofTokens source.tokens with _ | _ | p
    · simp [parsed, Except.toOption] at read
    · simp [parsed, Except.toOption] at read
    · rw [parsed] at read
      obtain ⟨r, resolved, narrow⟩ := resolves source p (by decide +kernel) parsed
      exact ⟨p, r, rfl, Option.some.inj read, resolved, narrow⟩

end ConstLang
