import ConstLang.Proofs.Program.Grammar

/-!
# The nodes of a program

A node is a name that is defined, an expression, or a definition. Each node has parts, its tokens,
and a span; the tokens of a node are consecutive tokens of the program.
-/

namespace ConstLang

namespace Expr

/-- The expressions that an expression is made of directly, in the order of the source. -/
def operands : Expr → List Expr
  | literal _ _ | access _ => []
  | group _ inner _ => [inner]
  | unary _ _ operand => [operand]
  | binary _ _ left right => [left, right]

/-- Every expression in an expression, each one before its operands. -/
def nodes : Expr → List Expr
  | literal n span => [literal n span]
  | access name => [access name]
  | group opening inner closing => group opening inner closing :: inner.nodes
  | unary sign span operand => unary sign span operand :: operand.nodes
  | binary op span left right => binary op span left right :: (left.nodes ++ right.nodes)

theorem mem_nodes_self (e : Expr) : e ∈ e.nodes := by
  cases e <;> exact List.mem_cons_self

/-- The tokens of an expression in another one follow one another there. -/
theorem tokens_isInfix {e node : Expr} (h : node ∈ e.nodes) : node.tokens <:+: e.tokens := by
  induction e with
  | literal n span | access name =>
    obtain rfl := List.mem_singleton.1 h
    exact List.infix_rfl
  | group opening inner closing ih =>
    obtain rfl | h := List.mem_cons.1 h
    · exact List.infix_rfl
    · exact (ih h).trans ⟨[_], [_], rfl⟩
  | unary sign span operand ih =>
    obtain rfl | h := List.mem_cons.1 h
    · exact List.infix_rfl
    · exact (ih h).trans (List.suffix_cons _ _).isInfix
  | binary op span left right ihl ihr =>
    obtain rfl | h := List.mem_cons.1 h
    · exact List.infix_rfl
    · obtain h | h := List.mem_append.1 h
      · exact (ihl h).trans (List.prefix_append _ _).isInfix
      · exact (ihr h).trans ((List.suffix_cons _ _).trans (List.suffix_append _ _)).isInfix

end Expr

inductive Node
  /-- The name of a definition. -/
  | name (n : Name)
  | expr (e : Expr)
  | definition (d : Definition)

namespace Node

def span : Node → Span
  | name n => n.span
  | expr e => e.span
  | definition d => d.span

def tokens : Node → List Token
  | name n => [n.token]
  | expr e => e.tokens
  | definition d => d.tokens

/-- The nodes that a node is made of directly, in the order of the source. -/
def parts : Node → List Node
  | name _ => []
  | expr e => e.operands.map expr
  | definition d => [name d.name, expr d.type, expr d.value]

end Node

/-- Every node of a definition, each one before its parts. -/
def Definition.nodes (d : Definition) : List Node :=
  .definition d :: .name d.name :: (d.type.nodes ++ d.value.nodes).map .expr

/-- Every node of a program, each one before its parts. -/
def Program.nodes (p : Program) : List Node := p.definitions.flatMap Definition.nodes

theorem Definition.tokens_isInfix {d : Definition} {n : Node} (h : n ∈ d.nodes) :
    n.tokens <:+: d.tokens := by
  simp only [nodes, List.mem_cons, List.mem_map, List.mem_append] at h
  obtain rfl | rfl | ⟨e, h | h, rfl⟩ := h
  · exact List.infix_rfl
  · exact ⟨[], _, rfl⟩
  · refine (Expr.tokens_isInfix h).trans ⟨[d.name.token, Mark.colon.token d.colon],
      Mark.equals.token d.equals :: d.value.tokens ++ [Mark.semicolon.token d.semicolon], ?_⟩
    simp [tokens]
  · refine (Expr.tokens_isInfix h).trans ⟨d.name.token :: Mark.colon.token d.colon ::
      d.type.tokens ++ [Mark.equals.token d.equals], [Mark.semicolon.token d.semicolon], ?_⟩
    simp [tokens]

theorem Program.tokens_isInfix {p : Program} {n : Node} (h : n ∈ p.nodes) :
    n.tokens <:+: p.definitions.flatMap Definition.tokens := by
  obtain ⟨d, mem, h⟩ := List.mem_flatMap.1 h
  exact (Definition.tokens_isInfix h).trans (List.infix_of_mem_flatten (List.mem_map_of_mem mem))

end ConstLang
