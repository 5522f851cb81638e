import ConstLang.Proofs.Resolution.Origin
import ConstLang.Proofs.Resolution.Settling
import ConstLang.Proofs.Resolution.Typing

/-!
# Annotated trees

The trees of a variable are the expressions of its definition once more, with a value at each node.
`Annotated.Carries` says where the value of a node comes from, with one rule for each form of
expression, and evaluation keeps to the rules. The nodes of a tree are listed by their places in it,
each of which is the path of operands that leads there.
-/

namespace ConstLang

/-! ## Places -/

namespace Annotated

/-- The part of a tree that a path of operands leads to, counted from zero. -/
def at? : Annotated → List ℕ → Option Annotated
  | a, [] => some a
  | a, i :: path => a.operands[i]?.bind fun operand => operand.at? path

/-- The places of a tree, each one before those in its operands. -/
def places : Annotated → List (List ℕ)
  | leaf _ _ => [[]]
  | one _ _ operand => [] :: operand.places.map (List.cons 0)
  | two _ _ left right =>
    [] :: (left.places.map (List.cons 0) ++ right.places.map (List.cons 1))

variable {a : Annotated} {path : List ℕ}

theorem nil_lt_of_mem_map {i : ℕ} {paths : List (List ℕ)} (mem : path ∈ paths.map (List.cons i)) :
    [] < path := by
  obtain ⟨rest, -, rfl⟩ := List.mem_map.1 mem
  exact List.nil_lt_cons i rest

theorem pairwise_map_cons {paths : List (List ℕ)} (h : paths.Pairwise (· < ·)) (i : ℕ) :
    (paths.map (List.cons i)).Pairwise (· < ·) := by
  rw [List.pairwise_map]
  exact h.imp fun lt => List.cons_lt_cons_iff.2 (.inr ⟨rfl, lt⟩)

/-- A path comes before those that go on with it, and of two that part ways the one that takes the
earlier operand comes first. -/
theorem pairwise_places (a : Annotated) : a.places.Pairwise (· < ·) := by
  induction a with
  | leaf => exact List.pairwise_singleton _ _
  | one span v operand ih =>
    exact List.pairwise_cons.2 ⟨fun _ => nil_lt_of_mem_map, pairwise_map_cons ih 0⟩
  | two span v left right ihl ihr =>
    refine List.pairwise_cons.2 ⟨fun path mem => ?_, List.pairwise_append.2
      ⟨pairwise_map_cons ihl 0, pairwise_map_cons ihr 1, fun path hl other hr => ?_⟩⟩
    · exact (List.mem_append.1 mem).elim nil_lt_of_mem_map nil_lt_of_mem_map
    · obtain ⟨_, -, rfl⟩ := List.mem_map.1 hl
      obtain ⟨_, -, rfl⟩ := List.mem_map.1 hr
      exact List.cons_lt_cons_iff.2 (.inl Nat.zero_lt_one)

theorem mem_places_iff : path ∈ a.places ↔ (a.at? path).isSome = true := by
  induction a generalizing path with
  | leaf => cases path <;> simp [places, at?, operands]
  | one span v operand ih =>
    rcases path with _ | ⟨_ | i, path⟩ <;> simp [places, at?, operands, ih]
  | two span v left right ihl ihr =>
    rcases path with _ | ⟨_ | _ | i, path⟩ <;> simp [places, at?, operands, ihl, ihr]

/-- The nodes of a tree are the parts at its places. -/
theorem nodes_eq_places (a : Annotated) : a.nodes.map some = a.places.map a.at? := by
  induction a with
  | leaf => rfl
  | one span v operand ih =>
    simp only [nodes, places, List.map_cons, List.map_map, ih]
    rfl
  | two span v left right ihl ihr =>
    simp only [nodes, places, List.map_cons, List.map_append, List.map_map, ihl, ihr]
    rfl

end Annotated

/-! ## Values -/

namespace Symbols.Known

variable {s : Symbols} {name : String} {symbol : Symbol}

theorem exists_value (known : s.Known) (h : s.get? name = some symbol) :
    ∃ c, symbol.valuation = ⟨symbol.type, some c⟩ := by
  cases symbol with
  | builtin type => exact ⟨_, rfl⟩
  | declared v =>
    obtain ⟨x, value⟩ := known v (mem_of_get? h)
    exact ⟨_, value⟩

theorem exists_number (known : s.Known) (h : s.get? name = some symbol) {type : Scalar} {c : Value}
    (value : symbol.valuation = ⟨.scalar type, some c⟩) : ∃ x, c = .number x := by
  cases symbol with
  | builtin t => simp [Symbol.valuation] at value
  | declared v =>
    obtain ⟨x, number⟩ := known v (mem_of_get? h)
    have same : v.valuation = ⟨.scalar type, some c⟩ := value
    rw [number, Valuation.mk.injEq, Option.some.injEq] at same
    exact ⟨x, same.2.symm⟩

end Symbols.Known

namespace Annotated

/-- The nodes of a tree carry the values of an expression, given the symbols. Every node has the
type that is expected. A literal has the value that is written and a name that of its symbol; in
parentheses or behind a plus a value stays the same, and a minus negates it; and an operation has
the result on the values of its operands. -/
inductive Carries (s : Symbols) (expected : Ty) :
    Annotated → Expr → Value → Prop
  | literal {n : Numeral} {x : Decimal} (span : Span) :
      expected ≠ .metatype → n.value? = some x →
      Carries s expected (.leaf span ⟨expected, some (.number x)⟩) (.literal n span) (.number x)
  | access {name : Name} {symbol : Symbol} {c : Value} :
      s.get? name.text = some symbol → symbol.valuation = ⟨expected, some c⟩ →
      Carries s expected (.leaf name.span ⟨expected, some c⟩) (.access name) c
  | group {a : Annotated} {inner : Expr} {c : Value} (opening closing : Span) :
      Carries s expected a inner c →
      Carries s expected (.one (Expr.group opening inner closing).span ⟨expected, some c⟩ a)
        (.group opening inner closing) c
  | plus {a : Annotated} {operand : Expr} {c : Value} (span : Span) :
      Carries s expected a operand c →
      Carries s expected (.one (Expr.unary .plus span operand).span ⟨expected, some c⟩ a)
        (.unary .plus span operand) c
  | minus {a : Annotated} {operand : Expr} {x : Decimal} (span : Span) :
      Carries s expected a operand (.number x) →
      Carries s expected
        (.one (Expr.unary .minus span operand).span ⟨expected, some (.number (-x))⟩ a)
        (.unary .minus span operand) (.number (-x))
  | binary {l r : Annotated} {left right : Expr} {op : Operator} {type : Scalar} {x y z : Decimal}
      (span : Span) :
      Carries s expected l left (.number x) → Carries s expected r right (.number y) →
      expected = .scalar type → op.apply? type x y = some z →
      Carries s expected
        (.two (Expr.binary op span left right).span ⟨expected, some (.number z)⟩ l r)
        (.binary op span left right) (.number z)

namespace Carries

variable {a : Annotated} {s : Symbols} {expected : Ty} {e : Expr} {c : Value}

theorem valuation (h : a.Carries s expected e c) : a.valuation = ⟨expected, some c⟩ := by
  cases h <;> rfl

/-- Every node carries the value of the part of the expression that is in its place. -/
theorem forall₂_nodes (h : a.Carries s expected e c) :
    List.Forall₂ (fun node part => ∃ c, node.Carries s expected part c) a.nodes e.nodes := by
  induction h with
  | literal span scalar value => exact .cons ⟨_, .literal span scalar value⟩ .nil
  | access found value => exact .cons ⟨_, .access found value⟩ .nil
  | group opening closing inner ih => exact .cons ⟨_, .group opening closing inner⟩ ih
  | plus span operand ih => exact .cons ⟨_, .plus span operand⟩ ih
  | minus span operand ih => exact .cons ⟨_, .minus span operand⟩ ih
  | binary span left right scalar result ihl ihr =>
    exact .cons ⟨_, .binary span left right scalar result⟩ (List.rel_append ihl ihr)

theorem exists_of_mem_nodes (h : a.Carries s expected e c) {node : Annotated}
    (mem : node ∈ a.nodes) : ∃ part c, node.Carries s expected part c := by
  have carried := h.forall₂_nodes
  obtain ⟨i, hi, rfl⟩ := List.getElem_of_mem mem
  exact ⟨_, carried.get hi (carried.length_eq ▸ hi)⟩

/-- Where variables have numbers, so have the expressions of a scalar type. -/
theorem exists_number (known : s.Known) {type : Scalar}
    (h : a.Carries s (.scalar type) e c) : ∃ x, c = .number x := by
  induction h with
  | literal | minus | binary => exact ⟨_, rfl⟩
  | access found value => exact known.exists_number found value
  | group _ _ _ ih | plus _ _ ih => exact ih

end Carries

end Annotated

/-! ## Evaluation -/

namespace Scope

variable {s : Scope} {expected : Ty} {e : Expr} {a : Annotated}

/-- What an expression is evaluated to carries its values. -/
theorem carries_eval (known : s.symbols.Known) (h : (s.eval expected e).result = some a) :
    ∃ c, a.Carries s.symbols expected e c := by
  induction e generalizing a with
  | literal n span =>
    cases expected with
    | metatype => cases h
    | scalar type =>
      obtain ⟨x, value, -, rfl⟩ := eval_literal_eq_some.1 h
      exact ⟨_, .literal span nofun value⟩
  | access name =>
    obtain ⟨symbol, found, rfl, rfl⟩ := eval_access_eq_some.1 h
    obtain ⟨c, value⟩ := known.exists_value found
    rw [value]
    exact ⟨c, .access found value⟩
  | group opening inner closing ih =>
    obtain ⟨i, evaluated, rfl⟩ := eval_group_eq_some.1 h
    obtain ⟨c, carried⟩ := ih evaluated
    rw [carried.valuation]
    exact ⟨c, .group opening closing carried⟩
  | unary sign span operand ih =>
    obtain ⟨o, evaluated, scalar, rfl⟩ := eval_unary_eq_some.1 h
    obtain ⟨c, carried⟩ := ih evaluated
    rw [carried.valuation] at scalar ⊢
    cases sign with
    | plus => exact ⟨c, .plus span carried⟩
    | minus =>
      cases expected with
      | metatype => contradiction
      | scalar type =>
        obtain ⟨x, rfl⟩ := carried.exists_number known
        exact ⟨_, .minus span carried⟩
  | binary op span left right ihl ihr =>
    cases expected with
    | metatype => cases h
    | scalar type =>
      obtain ⟨l, r, hl, hr, operated⟩ := eval_binary_eq_some.1 h
      obtain ⟨_, left_carried⟩ := ihl hl
      obtain ⟨_, right_carried⟩ := ihr hr
      obtain ⟨x, rfl⟩ := left_carried.exists_number known
      obtain ⟨y, rfl⟩ := right_carried.exists_number known
      obtain ⟨z, result, rfl⟩ := (evalOperation_eq_some
        (Annotated.number?_of_valuation left_carried.valuation)
        (Annotated.number?_of_valuation right_carried.valuation)).1 operated
      exact ⟨_, .binary span left_carried right_carried rfl result⟩

/-- All nodes of a type expression come to the same type. -/
theorem valuation_of_mem_nodes (h : (s.eval .metatype e).result = some a) :
    ∀ node ∈ a.nodes, node.valuation = a.valuation := by
  induction e generalizing a with
  | literal n span => cases h
  | access name =>
    obtain ⟨symbol, -, -, rfl⟩ := eval_access_eq_some.1 h
    intro node mem
    rw [List.mem_singleton.1 mem]
  | group opening inner closing ih =>
    obtain ⟨i, evaluated, rfl⟩ := eval_group_eq_some.1 h
    exact List.forall_mem_cons.2 ⟨rfl, ih evaluated⟩
  | unary sign span operand ih =>
    obtain ⟨o, evaluated, scalar, -⟩ := eval_unary_eq_some.1 h
    obtain ⟨type, metatype⟩ := eval_metatype evaluated
    exact absurd (congrArg Valuation.type metatype) scalar
  | binary op span left right => cases h

end Scope

/-! ## Whole programs -/

/-- What a name means it still means when more variables are added. -/
theorem Symbols.get?_append {vars : List Variable} {name : String} {symbol : Symbol}
    (h : (Symbols.mk vars).get? name = some symbol) (more : List Variable) :
    (Symbols.mk (vars ++ more)).get? name = some symbol := by
  rw [get?_append_eq, h]
  rfl

/-- A variable was defined over those before it. -/
theorem Pass.exists_of_vars_foldl_next {p : Pass} {ds : List Definition}
    {before after : List Variable} {v : Variable} (empty : p.scope.symbols.vars = [])
    (h : (ds.foldl next p).scope.symbols.vars = before ++ v :: after) :
    ∃ front d back, ds = front ++ d :: back ∧
      (front.foldl next p).scope.symbols.vars = before ∧
      ((front.foldl next p).scope.define d).result = some v := by
  -- From the back: the last definition has added the last variable, or none at all.
  induction ds using List.reverseRecOn generalizing after with
  | nil => simp [empty] at h
  | append_singleton ds d ih =>
    rw [List.foldl_append, List.foldl_cons, List.foldl_nil, vars_next] at h
    cases added : ((ds.foldl next p).scope.define d).result with
    | none =>
      rw [added, Option.toList_none, List.append_nil] at h
      obtain ⟨front, e, back, rfl, earlier, defined⟩ := ih h
      exact ⟨front, e, back ++ [d], by simp, earlier, defined⟩
    | some w =>
      rw [added, Option.toList_some] at h
      obtain rfl | ⟨others, u, rfl⟩ := List.eq_nil_or_concat' after
      · obtain ⟨earlier, same⟩ := List.append_inj' h rfl
        obtain rfl := List.singleton_inj.1 same
        exact ⟨ds, d, [], rfl, earlier, added⟩
      · rw [← List.cons_append, ← List.append_assoc] at h
        obtain ⟨front, e, back, rfl, earlier, defined⟩ := ih (List.append_inj' h rfl).1
        exact ⟨front, e, back ++ [d], by simp, earlier, defined⟩

namespace Program

/-- The definition of a variable is resolved where the variables before it are the symbols. -/
theorem exists_visits_of_vars {p : Program} {r : Resolution} (h : p.resolve = .ok r)
    {before after : List Variable} {v : Variable} (split : r.symbols.vars = before ++ v :: after) :
    ∃ s d, p.Visits s d ∧ d ∈ firsts p.definitions ∧ s.symbols = ⟨before⟩ ∧
      (s.define d).result = some v := by
  have run := p.resolve_eq
  rw [foldl_keep_eq_firsts] at run
  obtain rfl := Except.ok.inj (run.symm.trans h)
  obtain ⟨front, d, back, firsts_eq, rfl, defined⟩ := Pass.exists_of_vars_foldl_next rfl split
  exact ⟨_, d, visits_iff.2 ⟨front, back, firsts_eq, rfl⟩, by simp [firsts_eq], rfl, defined⟩

/-- The trees of a variable mirror the type and the value of its definition, and carry their values
over the variables before it; what a name means there it still means in the end. All nodes of the
first tree come to the type of the variable, and each node of the second one to a number of that
type. The nodes of a tree are listed by their places in it: each one once, and before its operands,
which follow in their order. -/
theorem trees_annotate (p : Program) :
    (∀ a : Annotated, a.nodes.map some = a.places.map a.at? ∧ a.places.Pairwise (· < ·) ∧
      ∀ path, path ∈ a.places ↔ (a.at? path).isSome = true) ∧
    ∃ r, p.resolve = .ok r ∧ ∀ before v after, r.symbols.vars = before ++ v :: after →
      (∃ d ∈ firsts p.definitions, v.Mirrors d ∧
        v.declared.Carries ⟨before⟩ .metatype d.type (.type (.scalar v.type)) ∧
        ∃ x, v.value.Carries ⟨before⟩ (.scalar v.type) d.value (.number x)) ∧
      (∀ node ∈ v.declared.nodes, node.valuation = ⟨.metatype, some (.type (.scalar v.type))⟩) ∧
      (∀ node ∈ v.value.nodes, ∃ x, node.valuation = ⟨.scalar v.type, some (.number x)⟩) ∧
      ∀ name symbol, (Symbols.mk before).get? name = some symbol →
        r.symbols.get? name = some symbol := by
  refine ⟨fun a => ⟨a.nodes_eq_places, a.pairwise_places, fun _ => Annotated.mem_places_iff⟩, ?_⟩
  obtain ⟨complete, issues, resolved⟩ := p.exists_resolve_eq
  refine ⟨_, resolved, fun before v after split => ?_⟩
  obtain ⟨s, d, visits, first, symbols, defined⟩ := exists_visits_of_vars resolved split
  have known : s.symbols.Known := (Symbols.inductive_wellTyped.of_visits visits).known
  have typed := Scope.define_wellTyped known defined
  obtain ⟨-, -, declares, -, -, evaluates, -⟩ := Scope.define_eq_some.1 defined
  obtain ⟨c, declared⟩ := Scope.carries_eval known declares
  obtain ⟨_, value⟩ := Scope.carries_eval known evaluates
  obtain ⟨x, rfl⟩ := value.exists_number known
  obtain rfl : c = .type (.scalar v.type) := by
    have same := declared.valuation.symm.trans typed.declared
    rw [Valuation.mk.injEq, Option.some.injEq] at same
    exact same.2
  refine ⟨⟨d, first, Scope.mirrors_define defined, symbols ▸ declared, x, symbols ▸ value⟩,
    fun node mem => ?_, fun node mem => ?_, fun name symbol found => ?_⟩
  · rw [Scope.valuation_of_mem_nodes declares node mem, typed.declared]
  · obtain ⟨part, _, carried⟩ := value.exists_of_mem_nodes mem
    obtain ⟨y, rfl⟩ := carried.exists_number known
    exact ⟨y, carried.valuation⟩
  · have vars : Symbols.mk (before ++ v :: after) = _ := congrArg Symbols.mk split.symm
    rw [← vars]
    exact Symbols.get?_append found _

end Program

/-! `a : f4 = 1.5 * 1.234567 ; x : (f4) = -(a + 1.5) ;` -/

namespace Annotating

open Clashing (name origin factor product typeF4 number)

def negated : Expr :=
  .unary .minus origin
    (.group origin (.binary .add origin (.access (name "a")) factor) origin)

def program : Program :=
  ⟨[⟨name "a", origin, .access (name "f4"), origin, product, origin⟩,
    ⟨name "x", origin, .group origin (.access (name "f4")) origin, origin, negated, origin⟩],
    origin⟩

def variableA : Variable :=
  ⟨name "a", .f4, .leaf origin typeF4, product,
    .two origin (number ⟨18518505, -7⟩) (.leaf origin (number ⟨15, -1⟩))
      (.leaf origin (number ⟨1234567, -6⟩)),
    number ⟨1851851, -6⟩⟩

/-- The name comes to the number that is stored, which has a digit less than the one computed. -/
def variableX : Variable :=
  ⟨name "x", .f4, .one origin typeF4 (.leaf origin typeF4), negated,
    .one origin (number ⟨-3351851, -6⟩) (.one origin (number ⟨3351851, -6⟩)
      (.two origin (number ⟨3351851, -6⟩) (.leaf origin (number ⟨1851851, -6⟩))
        (.leaf origin (number ⟨15, -1⟩)))),
    number ⟨-3351851, -6⟩⟩

end Annotating

open Annotating in
theorem Program.trees_annotate_negated :
    ∃ r, program.resolve = .ok r ∧ r.symbols.vars = [variableA, variableX] ∧
      (∃ d ∈ firsts program.definitions, variableX.Mirrors d ∧
        ∃ x, variableX.value.Carries ⟨[variableA]⟩ (.scalar .f4) d.value (.number x)) ∧
      r.symbols.get? "a" = some (.declared variableA) ∧
      variableX.value.nodes.map some =
        [[], [0], [0, 0], [0, 0, 0], [0, 0, 1]].map variableX.value.at? := by
  have run : (program.resolve.toOption.map fun r => r.symbols.vars) =
      some [variableA, variableX] := by decide +kernel
  obtain ⟨places, r, resolved, trees⟩ := trees_annotate program
  rw [resolved] at run
  have vars : r.symbols.vars = [variableA] ++ variableX :: [] := Option.some.inj run
  obtain ⟨⟨d, first, mirrors, -, value⟩, -, -, meanings⟩ := trees _ _ _ vars
  exact ⟨r, resolved, vars, ⟨d, first, mirrors, value⟩, meanings "a" _ (by decide +kernel),
    (places variableX.value).1⟩

end ConstLang
