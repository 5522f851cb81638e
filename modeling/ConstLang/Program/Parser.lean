import ConstLang.Diagnostic
import ConstLang.Program.Basic

/-!
# Parsing

Reads a program from tokens, by precedence and with a bound on how deeply an expression nests. The
first token that cannot go on ends the reading, and is what the error is about.

`operand`, `factors` and `terms` read an expression with room for a number of further levels.
Each sign, each parenthesis and each operator of a chain takes one level; a chain gives its levels
back at its end.
-/

namespace ConstLang

/-- What the grammar asks for at a token. -/
inductive Wanted
  | name
  | colon | equals | semicolon | closing
  | typeExpr | valueExpr | groupedExpr
  | operand (after : Mark)
deriving DecidableEq

namespace Wanted

/-- Whether a name or a mark is wanted, or else an expression. -/
def code : Wanted → Code
  | name | colon | equals | semicolon | closing => .unexpectedLexeme
  | typeExpr | valueExpr | groupedExpr | operand _ => .missingExpression

def message : Wanted → String
  | name => "expected the name of a definition"
  | colon => "expected `:` after the defined name"
  | equals => "expected `=` after the type expression"
  | semicolon => "expected `;` to end the definition"
  | closing => "expected `)` to close the group"
  | typeExpr => "expected a type expression after `:`"
  | valueExpr => "expected a value expression after `=`"
  | groupedExpr => "expected an expression after `(`"
  | operand after => s!"expected an operand after `{after.spelling}`"

end Wanted

/-- Why the reading ends before the tokens do. -/
inductive Obstacle
  /-- The token is not what is wanted. -/
  | unmet (wanted : Wanted)
  /-- The expression nests too deeply before the token. -/
  | nesting
deriving DecidableEq

/-- An obstacle and the tokens from the one it lies at. -/
structure Stop where
  obstacle : Obstacle
  rest : List Token
deriving DecidableEq

/-- The largest number of levels that an expression has open at once. -/
def maxNesting : Nat := 128

namespace Parser

/-- Reads a mark. -/
def expect (m : Mark) (wanted : Wanted) : List Token → Except Stop (Span × List Token)
  | [] => .error ⟨.unmet wanted, []⟩
  | t :: ts => if t.lexeme = .mark m then .ok (t.span, ts) else .error ⟨.unmet wanted, t :: ts⟩

/-- Reads a word. -/
def name : List Token → Except Stop (Name × List Token)
  | ⟨.word text, span⟩ :: ts => .ok (⟨text, span⟩, ts)
  | ts => .error ⟨.unmet .name, ts⟩

mutual

/-- Reads a literal, a name, a group, or a sign with its operand. -/
def operand (room : Nat) (wanted : Wanted) (ts : List Token) : Except Stop (Expr × List Token) :=
  match ts with
  | ⟨.word text, span⟩ :: ts => .ok (.access ⟨text, span⟩, ts)
  | ⟨.number numeral, span⟩ :: ts => .ok (.literal numeral span, ts)
  | ⟨.mark m, span⟩ :: ts =>
    match Sign.ofMark? m with
    | some sign =>
      match room with
      | 0 => .error ⟨.nesting, ts⟩
      | room + 1 => do
        let (e, ts) ← operand room (.operand m) ts
        .ok (.unary sign span e, ts)
    | none =>
      if m = .leftParen then
        match room with
        | 0 => .error ⟨.nesting, ts⟩
        | room + 1 => do
          let (e, ts) ← operand room .groupedExpr ts
          let (e, ts) ← factors room e ts
          let (e, ts) ← terms room e ts
          let (closing, ts) ← expect .rightParen .closing ts
          .ok (.group span e closing, ts)
      else .error ⟨.unmet wanted, ⟨.mark m, span⟩ :: ts⟩
  | ts => .error ⟨.unmet wanted, ts⟩

/-- Reads the multiplicative operators after `left`, each with its right operand. -/
def factors (room : Nat) (left : Expr) (ts : List Token) : Except Stop (Expr × List Token) :=
  match ts with
  | ⟨.mark m, span⟩ :: ts =>
    match Operator.multiplicative? m with
    | some op =>
      match room with
      | 0 => .error ⟨.nesting, ts⟩
      | room + 1 => do
        let (right, ts) ← operand room (.operand m) ts
        factors room (.binary op span left right) ts
    | none => .ok (left, ⟨.mark m, span⟩ :: ts)
  | ts => .ok (left, ts)

/-- Reads the additive operators after `left`, each with its right operand. -/
def terms (room : Nat) (left : Expr) (ts : List Token) : Except Stop (Expr × List Token) :=
  match ts with
  | ⟨.mark m, span⟩ :: ts =>
    match Operator.additive? m with
    | some op =>
      match room with
      | 0 => .error ⟨.nesting, ts⟩
      | room + 1 => do
        let (right, ts) ← operand room (.operand m) ts
        let (right, ts) ← factors room right ts
        terms room (.binary op span left right) ts
    | none => .ok (left, ⟨.mark m, span⟩ :: ts)
  | ts => .ok (left, ts)

end

/-- Reads an expression. -/
def expression (room : Nat) (wanted : Wanted) (ts : List Token) :
    Except Stop (Expr × List Token) := do
  let (e, ts) ← operand room wanted ts
  let (e, ts) ← factors room e ts
  terms room e ts

/-- Reads `name : type = value ;`. -/
def definition (ts : List Token) : Except Stop (Definition × List Token) := do
  let (name, ts) ← name ts
  let (colon, ts) ← expect .colon .colon ts
  let (type, ts) ← expression maxNesting .typeExpr ts
  let (equals, ts) ← expect .equals .equals ts
  let (value, ts) ← expression maxNesting .valueExpr ts
  let (semicolon, ts) ← expect .semicolon .semicolon ts
  .ok (⟨name, colon, type, equals, value, semicolon⟩, ts)

/-! ## What a reading takes

Each reading function has one inversion lemma: what it has taken from the tokens if it succeeds, and
what it has made of it.
-/

section

variable {room : Nat} {wanted : Wanted} {ts rest : List Token} {left e : Expr}

theorem token_of_expect {m : Mark} {span : Span} (h : expect m wanted ts = .ok (span, rest)) :
    ts = m.token span :: rest := by
  cases ts with
  | nil => cases h
  | cons t ts =>
    rw [expect] at h
    split at h
    · next same =>
      cases h
      rw [Mark.token, ← same]
    · cases h

theorem token_of_name {n : Name} (h : name ts = .ok (n, rest)) : ts = n.token :: rest := by
  unfold name at h
  split at h
  · cases h
    rfl
  · cases h

theorem operand_cases (h : operand room wanted ts = .ok (e, rest)) :
    (∃ n, ts = n.token :: rest ∧ e = .access n) ∨
    (∃ n span, ts = ⟨.number n, span⟩ :: rest ∧ e = .literal n span) ∨
    (∃ s span us inner, ∃ k < room, ts = s.mark.token span :: us ∧
      operand k (.operand s.mark) us = .ok (inner, rest) ∧ e = .unary s span inner) ∨
    (∃ opening us inner closing, ∃ k < room, ts = Mark.leftParen.token opening :: us ∧
      expression k .groupedExpr us = .ok (inner, Mark.rightParen.token closing :: rest) ∧
      e = .group opening inner closing) := by
  rw [operand.eq_def] at h
  split at h
  · next text span us =>
    cases h
    exact .inl ⟨⟨text, span⟩, rfl, rfl⟩
  · next n span us =>
    cases h
    exact .inr (.inl ⟨n, span, rfl, rfl⟩)
  · next m span us =>
    split at h
    · next s sign =>
      obtain rfl := Sign.mark_of_ofMark? sign
      cases room with
      | zero => cases h
      | succ k =>
        obtain ⟨⟨inner, vs⟩, read, h⟩ := bind_eq_ok.1 h
        cases h
        exact .inr (.inr (.inl ⟨s, span, us, inner, k, k.lt_succ_self, rfl, read, rfl⟩))
    · split at h
      · next same =>
        subst same
        cases room with
        | zero => cases h
        | succ k =>
          obtain ⟨⟨e1, us1⟩, read1, h⟩ := bind_eq_ok.1 h
          obtain ⟨⟨e2, us2⟩, read2, h⟩ := bind_eq_ok.1 h
          obtain ⟨⟨inner, us3⟩, read3, h⟩ := bind_eq_ok.1 h
          obtain ⟨⟨closing, us4⟩, closed, h⟩ := bind_eq_ok.1 h
          cases h
          have read : expression k .groupedExpr us =
              .ok (inner, Mark.rightParen.token closing :: rest) := by
            rw [expression, read1, ok_bind]
            dsimp only
            rw [read2, ok_bind]
            dsimp only
            rw [read3, token_of_expect closed]
          exact .inr (.inr (.inr ⟨span, us, inner, closing, k, k.lt_succ_self, rfl, read, rfl⟩))
      · cases h
  · cases h

theorem factors_cases (h : factors room left ts = .ok (e, rest)) :
    (e = left ∧ rest = ts) ∨
    ∃ op span us right vs, ∃ k < room, op.isAdditive = false ∧
      ts = Mark.token (Operator.mark op) span :: us ∧
      operand k (.operand op.mark) us = .ok (right, vs) ∧
      factors k (.binary op span left right) vs = .ok (e, rest) := by
  rw [factors.eq_def] at h
  split at h
  · next m span us =>
    split at h
    · next op tight =>
      obtain rfl := Operator.mark_of_multiplicative? tight
      cases room with
      | zero => cases h
      | succ k =>
        obtain ⟨⟨right, vs⟩, read, h⟩ := bind_eq_ok.1 h
        exact .inr ⟨op, span, us, right, vs, k, k.lt_succ_self,
          Operator.isAdditive_of_multiplicative? tight, rfl, read, h⟩
    · cases h
      exact .inl ⟨rfl, rfl⟩
  · cases h
    exact .inl ⟨rfl, rfl⟩

theorem terms_cases (h : terms room left ts = .ok (e, rest)) :
    (e = left ∧ rest = ts) ∨
    ∃ op span us first vs right ws, ∃ k < room, op.isAdditive = true ∧
      ts = Mark.token (Operator.mark op) span :: us ∧
      operand k (.operand op.mark) us = .ok (first, vs) ∧ factors k first vs = .ok (right, ws) ∧
      terms k (.binary op span left right) ws = .ok (e, rest) := by
  rw [terms.eq_def] at h
  split at h
  · next m span us =>
    split at h
    · next op weak =>
      obtain rfl := Operator.mark_of_additive? weak
      cases room with
      | zero => cases h
      | succ k =>
        obtain ⟨⟨first, vs⟩, read_first, h⟩ := bind_eq_ok.1 h
        obtain ⟨⟨right, ws⟩, read, h⟩ := bind_eq_ok.1 h
        exact .inr ⟨op, span, us, first, vs, right, ws, k, k.lt_succ_self,
          Operator.isAdditive_of_additive? weak, rfl, read_first, read, h⟩
    · cases h
      exact .inl ⟨rfl, rfl⟩
  · cases h
    exact .inl ⟨rfl, rfl⟩

theorem expression_cases (h : expression room wanted ts = .ok (e, rest)) :
    ∃ e1 us e2 vs, operand room wanted ts = .ok (e1, us) ∧ factors room e1 us = .ok (e2, vs) ∧
      terms room e2 vs = .ok (e, rest) := by
  obtain ⟨⟨e1, us⟩, read1, h⟩ := bind_eq_ok.1 h
  obtain ⟨⟨e2, vs⟩, read2, h⟩ := bind_eq_ok.1 h
  exact ⟨e1, us, e2, vs, read1, read2, h⟩

theorem definition_cases {d : Definition} (h : definition ts = .ok (d, rest)) :
    ∃ us vs, ts = d.name.token :: Mark.colon.token d.colon :: us ∧
      expression maxNesting .typeExpr us = .ok (d.type, Mark.equals.token d.equals :: vs) ∧
      expression maxNesting .valueExpr vs =
        .ok (d.value, Mark.semicolon.token d.semicolon :: rest) := by
  obtain ⟨⟨name, us1⟩, h1, h⟩ := bind_eq_ok.1 h
  obtain ⟨⟨colon, us2⟩, h2, h⟩ := bind_eq_ok.1 h
  obtain ⟨⟨type, us3⟩, h3, h⟩ := bind_eq_ok.1 h
  obtain ⟨⟨equals, us4⟩, h4, h⟩ := bind_eq_ok.1 h
  obtain ⟨⟨value, us5⟩, h5, h⟩ := bind_eq_ok.1 h
  obtain ⟨⟨semicolon, us6⟩, h6, h⟩ := bind_eq_ok.1 h
  cases h
  obtain rfl := token_of_name h1
  obtain rfl := token_of_expect h2
  obtain rfl := token_of_expect h4
  obtain rfl := token_of_expect h6
  exact ⟨us2, us4, rfl, h3, h5⟩

/-- An operand takes tokens away, and the operators after it add none. -/
theorem length_of_operand_factors_terms (room : Nat) :
    (∀ wanted ts e rest, operand room wanted ts = .ok (e, rest) → rest.length < ts.length) ∧
    (∀ left ts e rest, factors room left ts = .ok (e, rest) → rest.length ≤ ts.length) ∧
    (∀ left ts e rest, terms room left ts = .ok (e, rest) → rest.length ≤ ts.length) := by
  induction room using Nat.strongRecOn with
  | ind room ih =>
    refine ⟨?_, ?_, ?_⟩
    · intro wanted ts e rest h
      obtain ⟨n, rfl, rfl⟩ | ⟨n, span, rfl, rfl⟩ | ⟨s, span, us, inner, k, less, rfl, read, rfl⟩ |
        ⟨opening, us, inner, closing, k, less, rfl, read, rfl⟩ := operand_cases h
      · exact rest.length.lt_succ_self
      · exact rest.length.lt_succ_self
      · have shorter := (ih k less).1 _ _ _ _ read
        rw [List.length_cons]
        omega
      · obtain ⟨e1, us1, e2, us2, read1, read2, read3⟩ := expression_cases read
        have shorter := (ih k less).1 _ _ _ _ read1
        have factors_shorter := (ih k less).2.1 _ _ _ _ read2
        have terms_shorter := (ih k less).2.2 _ _ _ _ read3
        rw [List.length_cons] at terms_shorter ⊢
        omega
    · intro left ts e rest h
      obtain ⟨rfl, rfl⟩ | ⟨op, span, us, right, vs, k, less, -, rfl, read, next⟩ := factors_cases h
      · exact Nat.le_refl _
      · have shorter := (ih k less).1 _ _ _ _ read
        have rest_shorter := (ih k less).2.1 _ _ _ _ next
        rw [List.length_cons]
        omega
    · intro left ts e rest h
      obtain ⟨rfl, rfl⟩ | ⟨op, span, us, first, vs, right, ws, k, less, -, rfl, read_first, read,
        next⟩ := terms_cases h
      · exact Nat.le_refl _
      · have shorter := (ih k less).1 _ _ _ _ read_first
        have factors_shorter := (ih k less).2.1 _ _ _ _ read
        have rest_shorter := (ih k less).2.2 _ _ _ _ next
        rw [List.length_cons]
        omega

theorem length_of_expression (h : expression room wanted ts = .ok (e, rest)) :
    rest.length < ts.length := by
  obtain ⟨operand_shorter, factors_shorter, terms_shorter⟩ := length_of_operand_factors_terms room
  obtain ⟨e1, us, e2, vs, read1, read2, read3⟩ := expression_cases h
  have := operand_shorter _ _ _ _ read1
  have := factors_shorter _ _ _ _ read2
  have := terms_shorter _ _ _ _ read3
  omega

theorem length_of_definition {d : Definition} (h : definition ts = .ok (d, rest)) :
    rest.length < ts.length := by
  obtain ⟨us, vs, rfl, read_type, read_value⟩ := definition_cases h
  have type_shorter := length_of_expression read_type
  have value_shorter := length_of_expression read_value
  simp only [List.length_cons] at type_shorter value_shorter ⊢
  omega

end

/-- Reads definitions until the tokens end. -/
def definitions : List Token → Except Stop (List Definition)
  | [] => .ok []
  | t :: ts =>
    match _h : definition (t :: ts) with
    | .error stop => .error stop
    | .ok (d, rest) => (definitions rest).map (d :: ·)
termination_by ts => ts.length
decreasing_by exact length_of_definition ‹_›

theorem definitions_of_ne_nil {ts : List Token} (h : ts ≠ []) :
    definitions ts = definition ts >>= fun (d, rest) => (definitions rest).map (d :: ·) := by
  obtain ⟨t, us, rfl⟩ := List.exists_cons_of_ne_nil h
  rw [definitions]
  split
  · next stop h => rw [h]; rfl
  · next d rest h => rw [h]; rfl

end Parser

/-- Why tokens are no program: an obstacle, and the token it lies at. -/
structure SyntaxError where
  obstacle : Obstacle
  found : Token
deriving DecidableEq

namespace SyntaxError

def diagnostic (e : SyntaxError) : Diagnostic :=
  match e.obstacle with
  | .unmet wanted =>
    .coded .parsing wanted.code e.found.span
      s!"{wanted.message}, found {e.found.lexeme.describe}"
  | .nesting =>
    .coded .parsing .deepNesting e.found.span
      s!"expression nests more than {maxNesting} levels deep"

end SyntaxError

/-- Whether a token is the end of the text. -/
def Token.isEnd (t : Token) : Bool := t.lexeme = .mark .endOfFile

namespace Program

/-- Splits tokens that end in an end mark at the first one. -/
def splitAtEnd (ts : List Token) : Except Fault (List Token × Token) :=
  match ts.getLast?, ts.dropWhile fun t => !t.isEnd with
  | some last, endMark :: _ =>
    if last.isEnd then .ok (ts.takeWhile fun t => !t.isEnd, endMark) else .error .openStream
  | _, _ => .error .openStream

/-- The program that tokens spell, up to the first end mark. The last token must be one. -/
def ofTokens (ts : List Token) : Except Fault (Except SyntaxError Program) := do
  let (body, endMark) ← splitAtEnd ts
  match Parser.definitions body with
  | .ok definitions => return .ok ⟨definitions, endMark.span⟩
  | .error stop => return .error ⟨stop.obstacle, stop.rest.head?.getD endMark⟩

end Program

end ConstLang
