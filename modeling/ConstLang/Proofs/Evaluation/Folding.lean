import ConstLang.Proofs.Evaluation.Denotation
import ConstLang.Proofs.Resolution.Run

/-!
# Folding is exact

Constants are folded to the numbers that their expressions denote. The main statement covers both
what is evaluated while a program is resolved and the variables that it ends up with: each of them
stores the denotation of its expression, over the variables before it, as its type binds it.
-/

namespace ConstLang

/-- A variable stores what its expression denotes over the symbols before it, bound to its type. -/
def Variable.Folds (s : Symbols) (v : Variable) : Prop :=
  ∃ x stored, v.value.number? = some x ∧ v.expr.denote? s.constant? v.type = some x.toRat ∧
    v.type.bind x = .ok stored ∧ v.valuation = ⟨.scalar v.type, some (.number stored)⟩

/-- Every variable stores what its expression denotes over the variables before it. -/
def Symbols.Folded (s : Symbols) : Prop :=
  ∀ before v after, s.vars = before ++ v :: after → v.Folds ⟨before⟩

theorem Symbols.Folded.known {s : Symbols} (h : s.Folded) : s.Known := by
  intro v mem
  obtain ⟨before, after, split⟩ := List.append_of_mem mem
  obtain ⟨-, stored, -, -, -, hv⟩ := h before v after split
  exact ⟨stored, hv⟩

theorem Symbols.Folded.append {s : Symbols} {v : Variable} (h : s.Folded) (hv : v.Folds s) :
    Symbols.Folded ⟨s.vars ++ [v]⟩ := by
  intro before w after split
  rcases List.eq_nil_or_concat after with rfl | ⟨after, last, rfl⟩
  · obtain ⟨rfl, same⟩ := List.append_inj' split rfl
    obtain rfl := List.head_eq_of_cons_eq same
    exact hv
  · rw [List.concat_eq_append, ← List.cons_append, ← List.append_assoc] at split
    exact h before w after (List.append_inj' split rfl).1

/-- A definition whose variable is known stores what its expression denotes. -/
theorem Scope.define_folds {s : Scope} (known : s.symbols.Known) {d : Definition} {v : Variable}
    (h : (s.define d).result = some v) : v.expr = d.value ∧ v.Folds s.symbols := by
  obtain ⟨-, same, -, -, -, hv, hs⟩ := define_eq_some.1 h
  obtain ⟨x, hx, denoted⟩ := eval_denotes known hv
  have number : v.value.number? = some x := by simp [Annotated.number?, hx, Valuation.number?]
  obtain ⟨stored, bound, stores⟩ := (store_eq_some number).1 hs
  exact ⟨same, x, stored, number, same ▸ denoted, bound, by rw [stores, hx]⟩

theorem Symbols.inductive_folded : Symbols.Inductive Symbols.Folded where
  empty before v after split := by simp at split
  insert h hv := h.append (Scope.define_folds h.known hv).2

/-- Folding computes the numbers that expressions denote. -/
theorem folding_exact (p : Program) :
    (∀ s d, p.Visits s d → s.symbols.Folded ∧
      (∀ type e a, (s.eval (.scalar type) e).result = some a →
        ∃ x, a.number? = some x ∧ e.denote? s.symbols.constant? type = some x.toRat) ∧
      ∀ v, (s.define d).result = some v → v.expr = d.value ∧ v.Folds s.symbols) ∧
    ∀ r, p.resolve = .ok r → r.symbols.Folded := by
  refine ⟨fun s d visited => ?_, fun r resolved => Symbols.inductive_folded.of_program resolved⟩
  have folded : s.symbols.Folded := Symbols.inductive_folded.of_visits visited
  have known : s.symbols.Known := folded.known
  refine ⟨folded, fun type e a h => ?_, fun v h => Scope.define_folds known h⟩
  obtain ⟨x, hx, denoted⟩ := Scope.eval_denotes known h
  exact ⟨x, by simp [Annotated.number?, hx, Valuation.number?], denoted⟩

/-! `third : f4 = 2 / 3 ; rest : f4 = -third ;` -/

namespace Thirds

def origin : Span := .single (Source.start ⟨0, "", ""⟩)

def name (text : String) : Name := ⟨text, origin⟩

def two : Numeral := ⟨⟨"2", by decide⟩, none, none⟩

def three : Numeral := ⟨⟨"3", by decide⟩, none, none⟩

def third : Definition :=
  ⟨name "third", origin, .access (name "f4"), origin,
    .binary .divide origin (.literal two origin) (.literal three origin), origin⟩

def rest : Definition :=
  ⟨name "rest", origin, .access (name "f4"), origin,
    .unary .minus origin (.access (name "third")), origin⟩

def program : Program := ⟨[third, rest], origin⟩

def number (x : Decimal) : Valuation := ⟨.scalar .f4, some (.number x)⟩

def variableThird : Variable :=
  ⟨third.name, .f4, .leaf origin ⟨.metatype, some (.type (.scalar .f4))⟩, third.value,
    .two origin (number ⟨6666667, -7⟩) (.leaf origin (number ⟨2, 0⟩))
      (.leaf origin (number ⟨3, 0⟩)),
    number ⟨6666667, -7⟩⟩

def variableRest : Variable :=
  ⟨rest.name, .f4, .leaf origin ⟨.metatype, some (.type (.scalar .f4))⟩, rest.value,
    .one origin (number ⟨-6666667, -7⟩) (.leaf origin (number ⟨6666667, -7⟩)),
    number ⟨-6666667, -7⟩⟩

def scope : Scope := ⟨⟨[variableThird]⟩, [rest], ["third", "rest"]⟩

def resolution : Resolution := ⟨true, ⟨[variableThird, variableRest]⟩, []⟩

end Thirds

open Thirds in
theorem folding_exact_thirds :
    program.Visits scope rest ∧ scope.symbols.Folded ∧
      (∃ x : Decimal, x = ⟨-6666667, -7⟩ ∧
        rest.value.denote? scope.symbols.constant? .f4 = some x.toRat) ∧
      variableRest.Folds scope.symbols ∧
      program.resolve = .ok resolution ∧ resolution.symbols.Folded := by
  have visits : program.Visits scope rest :=
    ⟨⟨⟨⟨[]⟩, [third, rest], ["third", "rest"]⟩, true, []⟩, [third], [], ⟨scope, true, []⟩,
      by decide +kernel, by decide +kernel, by decide +kernel, rfl⟩
  have value : (scope.eval (.scalar .f4) rest.value).result =
      some (.one origin (number ⟨-6666667, -7⟩) (.leaf origin (number ⟨6666667, -7⟩))) := by
    decide +kernel
  have defined : (scope.define rest).result = some variableRest := by decide +kernel
  have resolved : program.resolve = .ok resolution := by decide +kernel
  obtain ⟨visited, finished⟩ := folding_exact program
  obtain ⟨folded, evaluated, stored⟩ := visited scope rest visits
  obtain ⟨x, hx, denoted⟩ := evaluated _ _ _ value
  exact ⟨visits, folded, ⟨x, (Option.some.inj hx).symm, denoted⟩, (stored _ defined).2, resolved,
    finished _ resolved⟩

end ConstLang
