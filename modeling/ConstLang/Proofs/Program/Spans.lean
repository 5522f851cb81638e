import ConstLang.Proofs.Program.Acceptance
import ConstLang.Proofs.Program.Node
import ConstLang.Proofs.Token.Row

/-!
# The spans of a program

The span of a node is computed from the spans of its parts, and comes to the span of all its tokens.
In the program of a source the tokens follow one another there, so that the span of every node is
exactly that of its tokens: its text is theirs, it lies within the spans of the nodes around it, and
it does not overlap those beside it.
-/

namespace ConstLang

open Token

/-! ## Spans and tokens -/

theorem Expr.bounds {e : Expr} (order : InOrder e.tokens) : e.span.Bounds e.tokens := by
  induction e with
  | literal n span | access name => exact Span.bounds_single _
  | group opening inner closing ih =>
    exact (Span.bounds_single (Mark.leftParen.token opening)).cover inner.tokens
      (Span.bounds_single (Mark.rightParen.token closing)) order
  | unary sign span operand ih =>
    have inner := ih (order.sublist (List.sublist_cons_self ..))
    exact (Span.bounds_single (sign.mark.token span)).cover [] inner order
  | binary op span left right ihl ihr =>
    have hl := ihl (order.sublist (List.sublist_append_left ..))
    have hr := ihr (order.sublist
      ((List.sublist_cons_self ..).trans (List.sublist_append_right ..)))
    exact hl.cover [op.mark.token span] hr order

theorem Definition.tokens_eq (d : Definition) :
    d.tokens = [d.name.token] ++ ((Mark.colon.token d.colon :: d.type.tokens ++
      Mark.equals.token d.equals :: d.value.tokens) ++ [Mark.semicolon.token d.semicolon]) := by
  simp [tokens]

theorem Definition.bounds {d : Definition} (order : InOrder d.tokens) :
    d.span.Bounds d.tokens := by
  rw [tokens_eq] at order ⊢
  exact (Span.bounds_single d.name.token).cover _
    (Span.bounds_single (Mark.semicolon.token d.semicolon)) order

theorem Node.bounds {n : Node} (order : InOrder n.tokens) : n.span.Bounds n.tokens := by
  cases n with
  | name n => exact Span.bounds_single n.token
  | expr e => exact Expr.bounds order
  | definition d => exact Definition.bounds order

/-- The tokens of the parts of a node are among its own, in the same order. -/
theorem Node.sublist_parts (n : Node) : (n.parts.flatMap tokens).Sublist n.tokens := by
  cases n with
  | name n => exact List.nil_sublist _
  | expr e =>
    cases e with
    | literal | access => exact List.nil_sublist _
    | group opening inner closing =>
      rw [parts, Expr.operands, List.map_singleton, List.flatMap_singleton]
      exact (List.sublist_cons_self ..).trans (List.sublist_append_left ..)
    | unary sign span operand =>
      rw [parts, Expr.operands, List.map_singleton, List.flatMap_singleton]
      exact List.sublist_cons_self ..
    | binary op span left right =>
      simp only [parts, Expr.operands, List.map_cons, List.map_nil, List.flatMap_cons,
        List.flatMap_nil, List.append_nil]
      exact (List.Sublist.refl _).append (List.sublist_cons_self ..)
  | definition d =>
    simp only [parts, List.flatMap_cons, List.flatMap_nil, List.append_nil]
    change List.Sublist _ d.tokens
    rw [Definition.tokens_eq]
    refine (List.Sublist.refl _).append (List.Sublist.trans ?_ (List.sublist_append_left ..))
    exact (List.sublist_cons_self ..).append (List.sublist_cons_self ..)

theorem Node.sublist_of_mem_parts {n m : Node} (h : m ∈ n.parts) : m.tokens.Sublist n.tokens :=
  (List.sublist_flatten_of_mem (List.mem_map_of_mem h)).trans n.sublist_parts

/-- The parts of a node lie within it and do not overlap. -/
theorem Node.spans_parts {n : Node} (order : InOrder n.tokens) :
    (∀ m ∈ n.parts, m.span.Inside n.span) ∧
      n.parts.Pairwise fun m k => m.span.Before k.span := by
  have part : ∀ m ∈ n.parts, m.span.Bounds m.tokens := fun m h =>
    bounds (order.sublist (sublist_of_mem_parts h))
  exact ⟨fun m h => (part m h).inside_of_sublist (bounds order) order (sublist_of_mem_parts h),
    Span.pairwise_before part (order.sublist n.sublist_parts)⟩

/-! ## Programs of a source -/

theorem Span.Bounds.first_eq {span other : Span} {ts us : List Token}
    (h : span.Bounds (ts ++ us)) (ht : other.Bounds ts) : span.first = other.first := by
  obtain ⟨a, ha, b, hb, rfl⟩ := h
  obtain ⟨c, hc, d, hd, rfl⟩ := ht
  rw [List.head?_append, Option.mem_def.1 hc] at ha
  exact congrArg (fun t : Token => t.span.first) (Option.some.inj ha).symm

theorem Span.Bounds.last_eq {span other : Span} {ts us : List Token}
    (h : span.Bounds (ts ++ us)) (hu : other.Bounds us) : span.last = other.last := by
  obtain ⟨a, ha, b, hb, rfl⟩ := h
  obtain ⟨c, hc, d, hd, rfl⟩ := hu
  rw [List.getLast?_append, Option.mem_def.1 hd] at hb
  exact congrArg (fun t : Token => t.span.last) (Option.some.inj hb).symm

/-- The span of tokens is widened definition by definition. -/
theorem Span.Bounds.foldl_cover {span : Span} {ts : List Token} {ds : List Definition}
    (h : span.Bounds ts) (order : InOrder (ts ++ ds.flatMap Definition.tokens)) :
    (ds.foldl (fun s d => s.cover d.span) span).Bounds (ts ++ ds.flatMap Definition.tokens) := by
  induction ds generalizing ts span with
  | nil => simpa using h
  | cons d ds ih =>
    rw [List.flatMap_cons, ← List.append_assoc] at order ⊢
    have first := order.sublist (List.sublist_append_left ..)
    have tokens := Definition.bounds (first.sublist (List.sublist_append_right ts d.tokens))
    exact ih (h.cover [] tokens first) order

/-- The end mark of a source stands at the end of the text. -/
theorem Source.span_of_isEnd {s : Source} {t : Token} (mem : t ∈ s.tokens)
    (isEnd : t.isEnd = true) : t.span = .single (s.start.after s.text.toList) := by
  obtain ⟨parts, last, tokens, -, -, stand⟩ := s.tiles.exists_parts (Position.ahead_start s)
  rw [tokens, List.mem_append, List.mem_map, List.mem_singleton] at mem
  obtain ⟨part, mem, rfl⟩ | rfl := mem
  · have written := (stand part mem).2.1.text.2
    have endOfFile : part.2.lexeme = .mark .endOfFile := by simpa [Token.isEnd] using isEnd
    rw [endOfFile] at written
    exact absurd rfl written
  · rfl

namespace Program

variable {s : Source} {p : Program}

theorem bounds (nonempty : p.definitions ≠ [])
    (order : InOrder (p.definitions.flatMap Definition.tokens)) :
    p.span.Bounds (p.definitions.flatMap Definition.tokens) := by
  obtain ⟨ds, endMark⟩ := p
  obtain ⟨d, ds, rfl⟩ := List.exists_cons_of_ne_nil nonempty
  have first := Definition.bounds (order.sublist (List.sublist_append_left d.tokens _))
  exact first.foldl_cover order

/-- The tokens of an accepted program are the first tokens of the source. -/
theorem tokens_isPrefix (h : ofTokens s.tokens = .ok (.ok p)) : p.tokens <+: s.tokens := by
  have derived := ((ofTokens_eq_ok_iff (ends_of_ofTokens h)).1 h).1
  rw [← (derivesProgram_iff.1 derived).1]
  exact upToEnd_isPrefix _

/-- The tokens of the definitions follow one another in the source, and none is the end mark. -/
theorem definitions_isInfix (h : ofTokens s.tokens = .ok (.ok p)) :
    p.definitions.flatMap Definition.tokens <:+: s.tokens ∧
      ∀ t ∈ p.definitions.flatMap Definition.tokens, t.isEnd = false := by
  refine ⟨((List.prefix_append _ _).trans (tokens_isPrefix h)).isInfix, fun t mem => ?_⟩
  obtain ⟨d, -, mem⟩ := List.mem_flatMap.1 mem
  exact isEnd_of_mem_definition mem

/-- The span of a node of an accepted program is exactly that of its tokens. -/
theorem exact_of_mem_nodes (h : ofTokens s.tokens = .ok (.ok p)) {n : Node} (mem : n ∈ p.nodes) :
    n.span.Exact s n.tokens := by
  obtain ⟨consecutive, inner⟩ := definitions_isInfix h
  have sub := (tokens_isInfix mem).trans consecutive
  exact (Node.bounds ((inOrder_tokens s).sublist sub.sublist)).exact sub fun t ht =>
    inner t ((tokens_isInfix mem).subset ht)

/-- In the program of a source the span of every node is exactly that of its tokens; the parts of a
node lie within it, in the order of the source and without overlap, and so do the definitions, each
of which ends at its semicolon. The span of the program runs from the start of the first definition
to the end of the last one; without a definition it is that of the end mark, which has no text. -/
theorem spans_exact (h : ofTokens s.tokens = .ok (.ok p)) :
    (∀ n ∈ p.nodes, n.span.Exact s n.tokens ∧ (∀ m ∈ n.parts, m.span.Inside n.span) ∧
      n.parts.Pairwise fun m k => m.span.Before k.span) ∧
    (∀ d ∈ p.definitions, d.span.Inside p.span ∧ d.span.last = d.semicolon.last) ∧
    (p.definitions.Pairwise fun d e => d.span.Before e.span) ∧
    (p.definitions ≠ [] → p.span.Exact s (p.definitions.flatMap Definition.tokens)) ∧
    (∀ d ∈ p.definitions.head?, p.span.first = d.span.first) ∧
    (∀ d ∈ p.definitions.getLast?, p.span.last = d.span.last) ∧
    (p.definitions = [] →
      p.span = .single (s.start.after s.text.toList) ∧ p.span.text = .ok "") := by
  obtain ⟨consecutive, inner⟩ := definitions_isInfix h
  have order := (inOrder_tokens s).sublist consecutive.sublist
  have definition : ∀ d ∈ p.definitions, d.span.Bounds d.tokens := fun d mem =>
    Definition.bounds (order.sublist (List.sublist_flatten_of_mem (List.mem_map_of_mem mem)))
  refine ⟨fun n mem => ⟨exact_of_mem_nodes h mem, ?_⟩, fun d mem => ⟨?_, ?_⟩,
    Span.pairwise_before definition order, fun nonempty => ?_, fun d mem => ?_, fun d mem => ?_,
    fun empty => ?_⟩
  · exact Node.spans_parts (order.sublist (tokens_isInfix mem).sublist)
  · have nonempty := List.ne_nil_of_mem mem
    exact (definition d mem).inside_of_sublist (bounds nonempty order) order
      (List.sublist_flatten_of_mem (List.mem_map_of_mem mem))
  · exact (definition d mem).last_eq (Span.bounds_single (Mark.semicolon.token d.semicolon))
  · exact (bounds nonempty order).exact consecutive inner
  · have all := bounds (List.ne_nil_of_mem (List.mem_of_mem_head? mem)) order
    obtain ⟨ds, same⟩ : ∃ ds, p.definitions = d :: ds := ⟨_, List.eq_cons_of_mem_head? mem⟩
    rw [same, List.flatMap_cons] at all
    exact all.first_eq (definition d (List.mem_of_mem_head? mem))
  · have all := bounds (List.ne_nil_of_mem (List.mem_of_mem_getLast? mem)) order
    obtain ⟨ds, same⟩ := List.getLast?_eq_some_iff.1 mem
    rw [same, List.flatMap_append, List.flatMap_singleton] at all
    exact all.last_eq (definition d (List.mem_of_mem_getLast? mem))
  · have atEnd : p.span = .single (s.start.after s.text.toList) := by
      have mem : Mark.endOfFile.token p.endMark ∈ s.tokens :=
        (tokens_isPrefix h).subset (List.mem_append_right _ (List.mem_singleton_self _))
      rw [← Source.span_of_isEnd mem rfl, span, empty]
      rfl
    refine ⟨atEnd, ?_⟩
    have nothing := Span.text_of_end (Position.ahead_start s).after_all
    rw [atEnd]
    exact nothing

/-- A definition on two lines. -/
def wrapped : Source := ⟨0, "", "x : i4 = (-1\n+ 2) ;"⟩

/-- The texts of its nodes. -/
def wrappedTexts : List String :=
  ["x : i4 = (-1\n+ 2) ;", "x", "i4", "(-1\n+ 2)", "-1\n+ 2", "-1", "1", "2"]

theorem spans_exact_wrapped :
    ∃ p, ofTokens wrapped.tokens = .ok (.ok p) ∧
      p.nodes.map (fun n => n.span.text.toOption) = wrappedTexts.map some ∧
      p.span.Exact wrapped (p.definitions.flatMap Definition.tokens) := by
  have read : ((ofTokens wrapped.tokens).toOption.bind Except.toOption).map
      (fun p => p.nodes.map fun n => n.span.text.toOption) = some (wrappedTexts.map some) := by
    decide +kernel
  rcases parsed : ofTokens wrapped.tokens with _ | _ | p
  · simp [parsed, Except.toOption] at read
  · simp [parsed, Except.toOption] at read
  · rw [parsed] at read
    have texts := Option.some.inj read
    obtain ⟨-, -, -, all, -⟩ := spans_exact parsed
    refine ⟨p, rfl, texts, all ?_⟩
    rintro empty
    simp [nodes, empty, wrappedTexts] at texts

end Program

end ConstLang
