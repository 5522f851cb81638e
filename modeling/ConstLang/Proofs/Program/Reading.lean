import ConstLang.Proofs.Program.Depth

/-!
# Reading what was walked

The parser reads the walk over a tree of standard shape back as that tree, if its peak fits the
room that is left, and stops for its nesting otherwise.
-/

namespace ConstLang

/-- The reading stops because an expression nests too deeply. -/
def Stops {α : Type} (r : Except Stop α) : Prop := ∃ rest, r = .error ⟨.nesting, rest⟩

theorem Stops.bind {α β : Type} {r : Except Stop α} (h : Stops r) (f : α → Except Stop β) :
    Stops (r >>= f) := by
  obtain ⟨rest, rfl⟩ := h
  exact ⟨rest, rfl⟩

theorem Stops.map {α β : Type} {r : Except Stop α} (h : Stops r) (f : α → β) :
    Stops (r.map f) := by
  obtain ⟨rest, rfl⟩ := h
  exact ⟨rest, rfl⟩

namespace Parser

/-- Reads an operand and the multiplicative operators after it. -/
def factor (room : ℕ) (wanted : Wanted) (ts : List Token) : Except Stop (Expr × List Token) := do
  let (e, ts) ← operand room wanted ts
  factors room e ts

theorem expression_eq (room : ℕ) (wanted : Wanted) (ts : List Token) :
    expression room wanted ts =
      factor room wanted ts >>= fun (e, ts) => terms room e ts := by
  unfold expression factor
  cases operand room wanted ts <;> rfl

/-! ## One token ahead -/

theorem operand_name (room : ℕ) (wanted : Wanted) (n : Name) (ts : List Token) :
    operand room wanted (n.token :: ts) = .ok (.access n, ts) := by
  rw [Name.token, operand]

theorem operand_number (room : ℕ) (wanted : Wanted) (n : Numeral) (span : Span) (ts : List Token) :
    operand room wanted (⟨.number n, span⟩ :: ts) = .ok (.literal n span, ts) := by
  rw [operand]

theorem operand_sign_zero (wanted : Wanted) (s : Sign) (span : Span) (ts : List Token) :
    operand 0 wanted (s.mark.token span :: ts) = .error ⟨.nesting, ts⟩ := by
  rw [Mark.token, operand]
  cases s <;> rfl

theorem operand_sign_succ (room : ℕ) (wanted : Wanted) (s : Sign) (span : Span) (ts : List Token) :
    operand (room + 1) wanted (s.mark.token span :: ts) =
      operand room (.operand s.mark) ts >>= fun (e, ts) => .ok (.unary s span e, ts) := by
  rw [Mark.token, operand]
  cases s <;> rfl

theorem operand_group_zero (wanted : Wanted) (span : Span) (ts : List Token) :
    operand 0 wanted (Mark.leftParen.token span :: ts) = .error ⟨.nesting, ts⟩ := by
  rw [Mark.token, operand]
  rfl

theorem operand_group_succ (room : ℕ) (wanted : Wanted) (span : Span) (ts : List Token) :
    operand (room + 1) wanted (Mark.leftParen.token span :: ts) =
      expression room .groupedExpr ts >>= fun (e, ts) =>
        expect .rightParen .closing ts >>= fun (closing, ts) =>
          .ok (.group span e closing, ts) := by
  have plain : Sign.ofMark? .leftParen = none := rfl
  rw [Mark.token, operand, plain, expression]
  dsimp only
  rw [if_pos rfl]
  cases operand room .groupedExpr ts with
  | error stop => rfl
  | ok read =>
    obtain ⟨e, ts⟩ := read
    change (factors room e ts >>= _) = (factors room e ts >>= _) >>= _
    cases factors room e ts <;> rfl

theorem factors_zero {op : Operator} (tight : op.isAdditive = false) (left : Expr) (span : Span)
    (ts : List Token) : factors 0 left (op.mark.token span :: ts) = .error ⟨.nesting, ts⟩ := by
  rw [Mark.token, factors, Operator.multiplicative?_mark tight]

theorem factors_succ {op : Operator} (tight : op.isAdditive = false) (room : ℕ) (left : Expr)
    (span : Span) (ts : List Token) :
    factors (room + 1) left (op.mark.token span :: ts) =
      operand room (.operand op.mark) ts >>= fun (right, ts) =>
        factors room (.binary op span left right) ts := by
  rw [Mark.token, factors, Operator.multiplicative?_mark tight]

theorem terms_zero {op : Operator} (weak : op.isAdditive = true) (left : Expr) (span : Span)
    (ts : List Token) : terms 0 left (op.mark.token span :: ts) = .error ⟨.nesting, ts⟩ := by
  rw [Mark.token, terms, Operator.additive?_mark weak]

theorem terms_succ {op : Operator} (weak : op.isAdditive = true) (room : ℕ) (left : Expr)
    (span : Span) (ts : List Token) :
    terms (room + 1) left (op.mark.token span :: ts) =
      factor room (.operand op.mark) ts >>= fun (right, ts) =>
        terms room (.binary op span left right) ts := by
  rw [Mark.token, terms, Operator.additive?_mark weak, factor]
  dsimp only
  cases operand room (.operand op.mark) ts <;> rfl

/-! ## The end of a chain -/

/-- The tokens do not start with an operator that goes on a chain. -/
def Closed (additive : Bool) (ts : List Token) : Prop :=
  ∀ op span us, op.isAdditive = additive → ts ≠ Mark.token (Operator.mark op) span :: us

theorem closed_token {m : Mark} (additive : Bool) (span : Span) (ts : List Token)
    (h : ∀ op : Operator, op.isAdditive = additive → op.mark ≠ m) :
    Closed additive (m.token span :: ts) := by
  rintro op _ _ same eq
  simp only [Mark.token, List.cons.injEq, Token.mk.injEq, Lexeme.mark.injEq] at eq
  exact h op same eq.1.1.symm

theorem closed_rightParen (additive : Bool) (span : Span) (ts : List Token) :
    Closed additive (Mark.rightParen.token span :: ts) :=
  closed_token additive span ts fun op _ => by cases op <;> decide

theorem closed_equals (additive : Bool) (span : Span) (ts : List Token) :
    Closed additive (Mark.equals.token span :: ts) :=
  closed_token additive span ts fun op _ => by cases op <;> decide

theorem closed_semicolon (additive : Bool) (span : Span) (ts : List Token) :
    Closed additive (Mark.semicolon.token span :: ts) :=
  closed_token additive span ts fun op _ => by cases op <;> decide

theorem closed_additive {op : Operator} (weak : op.isAdditive = true) (span : Span)
    (ts : List Token) : Closed false (op.mark.token span :: ts) := by
  refine closed_token false span ts fun other tight same => ?_
  cases op <;> cases other <;> contradiction

theorem Closed.multiplicative?_eq_none {m : Mark} {span : Span} {ts : List Token}
    (h : Closed false (m.token span :: ts)) : Operator.multiplicative? m = none := by
  cases tight : Operator.multiplicative? m with
  | none => rfl
  | some op =>
    obtain rfl := Operator.mark_of_multiplicative? tight
    exact absurd rfl (h op span ts (Operator.isAdditive_of_multiplicative? tight))

theorem Closed.additive?_eq_none {m : Mark} {span : Span} {ts : List Token}
    (h : Closed true (m.token span :: ts)) : Operator.additive? m = none := by
  cases weak : Operator.additive? m with
  | none => rfl
  | some op =>
    obtain rfl := Operator.mark_of_additive? weak
    exact absurd rfl (h op span ts (Operator.isAdditive_of_additive? weak))

theorem factors_of_closed {ts : List Token} (h : Closed false ts) (room : ℕ) (left : Expr) :
    factors room left ts = .ok (left, ts) := by
  rw [factors.eq_def]
  split
  · next m span us => simp only [Closed.multiplicative?_eq_none h]
  · rfl

theorem terms_of_closed {ts : List Token} (h : Closed true ts) (room : ℕ) (left : Expr) :
    terms room left ts = .ok (left, ts) := by
  rw [terms.eq_def]
  split
  · next m span us => simp only [Closed.additive?_eq_none h]
  · rfl

/-! ## Expressions -/

/-- A reading with this room comes to a result if the peak of the expression fits, and stops for its
nesting otherwise. -/
def Fits (e : Expr) (room : ℕ) (read result : Except Stop (Expr × List Token)) : Prop :=
  (e.peak ≤ room → read = result) ∧ (room < e.peak → Stops read)

theorem Fits.bind {e : Expr} {room : ℕ} {read result : Except Stop (Expr × List Token)}
    {a : Expr × List Token} {f : Expr × List Token → Except Stop (Expr × List Token)}
    (h : Fits e room read (.ok a)) (hf : f a = result) : Fits e room (read >>= f) result := by
  refine ⟨fun fits => ?_, fun exceeds => (h.2 exceeds).bind f⟩
  rw [h.1 fits]
  exact hf

/-- One more operator of a chain: `loop` reads the operators after a left operand, and `next` the
right operand of the first one. -/
theorem Fits.binary {op : Operator} {span : Span} {left right : Expr} {room : ℕ}
    {read : Except Stop (Expr × List Token)} {ts rest : List Token}
    {loop : ℕ → Expr → List Token → Except Stop (Expr × List Token)}
    (next : ℕ → Except Stop (Expr × List Token))
    (hl : Fits left room read
      (loop (room - left.chain op.isAdditive) left (op.mark.token span :: ts)))
    (hr : ∀ k, Fits right k (next k) (.ok (right, rest)))
    (zero : Stops (loop 0 left (op.mark.token span :: ts)))
    (succ : ∀ k, loop (k + 1) left (op.mark.token span :: ts) =
      next k >>= fun (right, ts) => loop k (.binary op span left right) ts) :
    Fits (.binary op span left right) room read
      (loop (room - (Expr.binary op span left right).chain op.isAdditive)
        (.binary op span left right) rest) := by
  have chain : (Expr.binary op span left right).chain op.isAdditive =
      left.chain op.isAdditive + 1 := by simp [Expr.chain]
  have peak : (Expr.binary op span left right).peak =
      max left.peak (left.chain op.isAdditive + 1 + right.peak) := rfl
  rw [Fits, chain, peak]
  constructor
  · intro fits
    obtain ⟨k, hk⟩ : ∃ k, room - left.chain op.isAdditive = k + 1 :=
      ⟨room - left.chain op.isAdditive - 1, by omega⟩
    have same : room - (left.chain op.isAdditive + 1) = k := by omega
    rw [hl.1 (by omega), hk, succ, (hr k).1 (by omega), same]
    rfl
  · intro exceeds
    by_cases fits : left.peak ≤ room
    · rw [hl.1 fits]
      cases hk : room - left.chain op.isAdditive with
      | zero => exact zero
      | succ k =>
        rw [succ]
        exact ((hr k).2 (by omega)).bind _
    · exact hl.2 (by omega)

/-- How the walk over an expression is read: by `operand` if it is no binary operation, by `factor`
if it is no additive one, and by `expression` if no multiplicative operator follows. The operators
that follow go on in the room that the chain has left. -/
structure Reads (e : Expr) : Prop where
  operand : e.isBinary = false → ∀ room wanted rest,
    Fits e room (operand room wanted (e.tokens ++ rest)) (.ok (e, rest))
  factor : e.isAdditive = false → ∀ room wanted rest,
    Fits e room (factor room wanted (e.tokens ++ rest)) (factors (room - e.chain false) e rest)
  expression : ∀ room wanted rest, Closed false rest →
    Fits e room (expression room wanted (e.tokens ++ rest)) (terms (room - e.chain true) e rest)

theorem Reads.of_factor {e : Expr} (tight : e.isAdditive = false)
    (h : ∀ room wanted rest,
      Fits e room (Parser.factor room wanted (e.tokens ++ rest))
        (factors (room - e.chain false) e rest))
    (operand : e.isBinary = false → ∀ room wanted rest,
      Fits e room (Parser.operand room wanted (e.tokens ++ rest)) (.ok (e, rest))) : Reads e := by
  refine ⟨operand, fun _ => h, fun room wanted rest closed => ?_⟩
  have read := h room wanted rest
  rw [factors_of_closed closed] at read
  rw [expression_eq, Expr.chain_of_isAdditive tight]
  exact read.bind rfl

theorem Reads.of_operand {e : Expr} (shape : e.isBinary = false)
    (h : ∀ room wanted rest,
      Fits e room (Parser.operand room wanted (e.tokens ++ rest)) (.ok (e, rest))) : Reads e := by
  refine .of_factor (Expr.isAdditive_of_isBinary shape) (fun room wanted rest => ?_) fun _ => h
  rw [Expr.chain_of_isBinary shape]
  exact (h room wanted rest).bind rfl

/-- An expression before a token that goes on no chain is read whole. -/
theorem Reads.whole {e : Expr} (h : Reads e) (room : ℕ) (wanted : Wanted) {rest : List Token}
    (closed : ∀ additive, Closed additive rest) :
    Fits e room (Parser.expression room wanted (e.tokens ++ rest)) (.ok (e, rest)) := by
  have read := h.expression room wanted rest (closed false)
  rwa [terms_of_closed (closed true)] at read

theorem reads_group {inner : Expr} (h : Reads inner) (opening closing : Span) :
    Reads (.group opening inner closing) := by
  refine .of_operand rfl fun room wanted rest => ?_
  have walk : (Expr.group opening inner closing).tokens ++ rest =
      Mark.leftParen.token opening :: (inner.tokens ++ Mark.rightParen.token closing :: rest) := by
    simp [Expr.tokens]
  rw [walk]
  cases room with
  | zero =>
    refine ⟨fun fits => by simp [Expr.peak] at fits, fun _ => ?_⟩
    exact ⟨_, operand_group_zero wanted opening _⟩
  | succ room =>
    have read := h.whole room .groupedExpr fun additive => closed_rightParen additive closing rest
    rw [operand_group_succ]
    refine ⟨fun fits => ?_, fun exceeds => (read.2 (by simpa [Expr.peak] using exceeds)).bind _⟩
    rw [read.1 (by simpa [Expr.peak] using fits)]
    simp [bind, Except.bind, expect, Mark.token]

theorem reads_unary {operand : Expr} (h : Reads operand) (shape : operand.isBinary = false)
    (s : Sign) (span : Span) : Reads (.unary s span operand) := by
  refine .of_operand rfl fun room wanted rest => ?_
  have walk : (Expr.unary s span operand).tokens ++ rest =
      s.mark.token span :: (operand.tokens ++ rest) := rfl
  rw [walk]
  cases room with
  | zero =>
    refine ⟨fun fits => by simp [Expr.peak] at fits, fun _ => ?_⟩
    exact ⟨_, operand_sign_zero wanted s span _⟩
  | succ room =>
    have read := h.operand shape room (.operand s.mark) rest
    rw [operand_sign_succ]
    refine ⟨fun fits => ?_, fun exceeds => (read.2 (by simpa [Expr.peak] using exceeds)).bind _⟩
    rw [read.1 (by simpa [Expr.peak] using fits)]
    rfl

theorem reads_binary {op : Operator} {left right : Expr} (span : Span) (hl : Reads left)
    (hr : Reads right)
    (shape : if op.isAdditive then right.isAdditive = false
      else left.isAdditive = false ∧ right.isBinary = false) :
    Reads (.binary op span left right) := by
  have walk (rest : List Token) : (Expr.binary op span left right).tokens ++ rest =
      left.tokens ++ op.mark.token span :: (right.tokens ++ rest) := by
    simp [Expr.tokens]
  cases weak : op.isAdditive with
  | true =>
    rw [if_pos weak] at shape
    refine ⟨nofun, fun tight => ?_, fun room wanted rest closed => ?_⟩
    · simp [Expr.isAdditive, weak] at tight
    rw [walk, ← weak]
    have read := hl.expression room wanted (op.mark.token span :: (right.tokens ++ rest))
      (closed_additive weak span _)
    rw [← weak] at read
    refine read.binary (fun k => factor k (.operand op.mark) (right.tokens ++ rest)) (fun k => ?_)
      ⟨_, terms_zero weak left span _⟩ fun k => terms_succ weak k left span _
    have next := hr.factor shape k (.operand op.mark) rest
    rwa [factors_of_closed closed] at next
  | false =>
    rw [if_neg (by simp [weak])] at shape
    refine .of_factor weak (fun room wanted rest => ?_) nofun
    rw [walk, ← weak]
    have read := hl.factor shape.1 room wanted (op.mark.token span :: (right.tokens ++ rest))
    rw [← weak] at read
    exact read.binary (fun k => operand k (.operand op.mark) (right.tokens ++ rest))
      (fun k => hr.operand shape.2 k _ rest) ⟨_, factors_zero weak left span _⟩
      fun k => factors_succ weak k left span _

theorem reads {e : Expr} (h : e.Standard) : Reads e := by
  induction e with
  | literal n span =>
    exact .of_operand rfl fun room wanted rest =>
      ⟨fun _ => operand_number room wanted n span rest, nofun⟩
  | access n =>
    exact .of_operand rfl fun room wanted rest =>
      ⟨fun _ => operand_name room wanted n rest, nofun⟩
  | group opening inner closing ih => exact reads_group (ih h) opening closing
  | unary s span operand ih => exact reads_unary (ih h.2) h.1 s span
  | binary op span left right ihl ihr => exact reads_binary span (ihl h.2.1) (ihr h.2.2) h.1

/-! ## Definitions -/

theorem expect_token (m : Mark) (wanted : Wanted) (span : Span) (ts : List Token) :
    expect m wanted (m.token span :: ts) = .ok (span, ts) := by
  simp [expect, Mark.token]

theorem name_token (n : Name) (ts : List Token) : name (n.token :: ts) = .ok (n, ts) := rfl

/-- A definition of standard shape is read whole, if both of its expressions fit. -/
theorem reads_definition {d : Definition} (h : ∀ e ∈ d.exprs, e.Standard) (rest : List Token) :
    ((∀ e ∈ d.exprs, e.peak ≤ maxNesting) → definition (d.tokens ++ rest) = .ok (d, rest)) ∧
    ((∃ e ∈ d.exprs, maxNesting < e.peak) → Stops (definition (d.tokens ++ rest))) := by
  have walk : d.tokens ++ rest =
      d.name.token :: Mark.colon.token d.colon :: (d.type.tokens ++
        Mark.equals.token d.equals :: (d.value.tokens ++
          Mark.semicolon.token d.semicolon :: rest)) := by
    simp [Definition.tokens]
  have standard_type : d.type.Standard := h d.type (by simp [Definition.exprs])
  have standard_value : d.value.Standard := h d.value (by simp [Definition.exprs])
  have type := (reads standard_type).whole maxNesting .typeExpr fun additive =>
    closed_equals additive d.equals (d.value.tokens ++ Mark.semicolon.token d.semicolon :: rest)
  have value := (reads standard_value).whole maxNesting .valueExpr fun additive =>
    closed_semicolon additive d.semicolon rest
  rw [definition, walk, name_token, ok_bind]
  dsimp only
  rw [expect_token, ok_bind]
  dsimp only
  constructor
  · intro fits
    rw [type.1 (fits d.type (by simp [Definition.exprs])), ok_bind]
    dsimp only
    rw [expect_token, ok_bind]
    dsimp only
    rw [value.1 (fits d.value (by simp [Definition.exprs])), ok_bind]
    dsimp only
    rw [expect_token, ok_bind]
  · rintro ⟨e, mem, exceeds⟩
    by_cases type_fits : d.type.peak ≤ maxNesting
    · have value_over : maxNesting < d.value.peak := by
        simp only [Definition.exprs, List.mem_cons, List.not_mem_nil, or_false] at mem
        obtain rfl | rfl := mem
        · omega
        · exact exceeds
      rw [type.1 type_fits, ok_bind]
      dsimp only
      rw [expect_token, ok_bind]
      exact (value.2 value_over).bind _
    · exact (type.2 (by omega)).bind _

/-- Definitions of standard shape are read whole, if all of their expressions fit. -/
theorem reads_definitions {ds : List Definition}
    (h : ∀ e ∈ ds.flatMap Definition.exprs, e.Standard) :
    ((∀ e ∈ ds.flatMap Definition.exprs, e.peak ≤ maxNesting) →
      definitions (ds.flatMap Definition.tokens) = .ok ds) ∧
    ((∃ e ∈ ds.flatMap Definition.exprs, maxNesting < e.peak) →
      Stops (definitions (ds.flatMap Definition.tokens))) := by
  induction ds with
  | nil => exact ⟨fun _ => by rw [List.flatMap_nil, definitions], by simp⟩
  | cons d ds ih =>
    simp only [List.flatMap_cons, List.mem_append] at h ⊢
    have read := reads_definition (fun e mem => h e (.inl mem)) (ds.flatMap Definition.tokens)
    have rest_read := ih fun e mem => h e (.inr mem)
    rw [definitions_of_ne_nil (by simp [Definition.tokens])]
    constructor
    · intro fits
      rw [read.1 fun e mem => fits e (.inl mem), ok_bind]
      dsimp only
      rw [rest_read.1 fun e mem => fits e (.inr mem)]
      rfl
    · rintro ⟨e, mem, exceeds⟩
      by_cases fits : ∀ e ∈ d.exprs, e.peak ≤ maxNesting
      · have late : e ∈ ds.flatMap Definition.exprs :=
          mem.resolve_left fun early => by
            have := fits e early
            omega
        rw [read.1 fits, ok_bind]
        exact (rest_read.2 ⟨e, late, exceeds⟩).map (d :: ·)
      · simp only [not_forall, not_le] at fits
        obtain ⟨e, mem, large⟩ := fits
        exact (read.2 ⟨e, mem, large⟩).bind _

end Parser

end ConstLang
