import ConstLang.Program.Parser
import Mathlib.Data.List.TakeWhile

/-!
# Reading does not depend on places

To move something to a span is to put that span in the place of each one that it holds, so that two
things are alike but for their spans if they are equal once they are moved to the same one. Moving
tokens moves the program that is read from them, or the error, and changes nothing else about it.
-/

namespace ConstLang

variable (o : Span)

/-! ## Tokens and trees -/

def Token.moved (t : Token) : Token := ⟨t.lexeme, o⟩

/-- Tokens are the same lexemes exactly if they are the same once they are moved. -/
theorem Token.map_moved_eq_iff {ts us : List Token} :
    ts.map (moved o) = us.map (moved o) ↔ ts.map lexeme = us.map lexeme := by
  have apart (vs : List Token) : vs.map (moved o) = (vs.map lexeme).map fun l => ⟨l, o⟩ := by
    rw [List.map_map]
    rfl
  have lexemes (vs : List Token) : (vs.map (moved o)).map lexeme = vs.map lexeme := by
    rw [List.map_map]
    rfl
  constructor
  · intro same
    rw [← lexemes ts, ← lexemes us, same]
  · intro same
    rw [apart, apart, same]

def Name.moved (n : Name) : Name := ⟨n.text, o⟩

namespace Expr

def moved : Expr → Expr
  | literal n _ => literal n o
  | access name => access (name.moved o)
  | group _ inner _ => group o inner.moved o
  | unary sign _ operand => unary sign o operand.moved
  | binary op _ left right => binary op o left.moved right.moved

theorem cover_self : o.cover o = o := by
  simp [Span.cover]

@[simp] theorem span_moved (e : Expr) : (e.moved o).span = o := by
  induction e with
  | literal | access => rfl
  | group opening inner closing ih => exact cover_self o
  | unary sign signSpan operand ih => rw [moved, span, ih, cover_self]
  | binary op opSpan left right ihl ihr => rw [moved, span, ihl, ihr, cover_self]

end Expr

def Definition.moved (d : Definition) : Definition :=
  ⟨d.name.moved o, o, d.type.moved o, o, d.value.moved o, o⟩

@[simp] theorem Definition.text_moved (d : Definition) : (d.moved o).name.text = d.name.text := rfl

def Program.moved (p : Program) : Program := ⟨p.definitions.map (·.moved o), o⟩

def Stop.moved (s : Stop) : Stop := ⟨s.obstacle, s.rest.map (Token.moved o)⟩

def SyntaxError.moved (e : SyntaxError) : SyntaxError := ⟨e.obstacle, e.found.moved o⟩

/-! ## Reading -/

namespace Parser

variable {α β : Type}

/-- What a reading comes to once it is moved, where `f` moves what is read. -/
def relaid (f : α → α) : Except Stop α → Except Stop α
  | .ok a => .ok (f a)
  | .error stop => .error (stop.moved o)

/-- Moves what is read by `f`, and the tokens that are left. -/
def andRest (f : α → α) : α × List Token → α × List Token :=
  Prod.map f (List.map (Token.moved o))

variable {o}

theorem relaid_bind {f : α → α} {g : β → β} {x y : Except Stop (α × List Token)}
    {next next' : α × List Token → Except Stop β} (read : y = relaid o (andRest o f) x)
    (step : ∀ a rest, next' (f a, rest.map (Token.moved o)) = relaid o g (next (a, rest))) :
    y >>= next' = relaid o g (x >>= next) := by
  subst read
  rcases x with stop | ⟨a, rest⟩
  · rfl
  · exact step a rest

variable (o)

theorem expect_moved (m : Mark) (wanted : Wanted) (ts : List Token) :
    expect m wanted (ts.map (Token.moved o)) =
      relaid o (andRest o fun _ => o) (expect m wanted ts) := by
  cases ts with
  | nil => rfl
  | cons t ts =>
    rw [List.map_cons, expect, expect, Token.moved]
    split <;> rfl

theorem name_moved (ts : List Token) :
    name (ts.map (Token.moved o)) = relaid o (andRest o (Name.moved o)) (name ts) := by
  cases ts with
  | nil => rfl
  | cons t ts =>
    obtain ⟨l, span⟩ := t
    cases l <;> rfl

/-- Moving the tokens moves what the reading functions come to. -/
structure MovesAt (room : ℕ) : Prop where
  operand (wanted : Wanted) (ts : List Token) :
    operand room wanted (ts.map (Token.moved o)) =
      relaid o (andRest o (Expr.moved o)) (operand room wanted ts)
  factors (left : Expr) (ts : List Token) :
    factors room (left.moved o) (ts.map (Token.moved o)) =
      relaid o (andRest o (Expr.moved o)) (factors room left ts)
  terms (left : Expr) (ts : List Token) :
    terms room (left.moved o) (ts.map (Token.moved o)) =
      relaid o (andRest o (Expr.moved o)) (terms room left ts)

/-- Each level of nesting leaves less room, so that the induction is on the room. The functions look
at the lexeme of the first token alone. -/
theorem movesAt (room : ℕ) : MovesAt o room := by
  induction room using Nat.strongRecOn with
  | ind room ih =>
  constructor
  · intro wanted ts
    rcases ts with _ | ⟨⟨l, span⟩, ts⟩
    · rw [List.map_nil, operand.eq_def]
      rfl
    rw [List.map_cons, Token.moved, operand.eq_def, operand.eq_def]
    cases l with
    | word | number | unknown => rfl
    | mark m =>
      dsimp only
      cases Sign.ofMark? m with
      | some sign =>
        cases room with
        | zero => rfl
        | succ k =>
          have below := ih k k.lt_succ_self
          exact relaid_bind (below.operand _ ts) fun e rest => rfl
      | none =>
        dsimp only
        split
        · cases room with
          | zero => rfl
          | succ k =>
            have below := ih k k.lt_succ_self
            refine relaid_bind (below.operand .groupedExpr ts) fun e rest => ?_
            refine relaid_bind (below.factors e rest) fun e rest => ?_
            refine relaid_bind (below.terms e rest) fun e rest => ?_
            exact relaid_bind (expect_moved o _ _ rest) fun closing rest => rfl
        · rfl
  · intro left ts
    rcases ts with _ | ⟨⟨l, span⟩, ts⟩
    · rw [List.map_nil, factors.eq_def, factors.eq_def]
      rfl
    rw [List.map_cons, Token.moved, factors.eq_def, factors.eq_def]
    cases l with
    | word | number | unknown => rfl
    | mark m =>
      dsimp only
      cases Operator.multiplicative? m with
      | none => rfl
      | some op =>
        cases room with
        | zero => rfl
        | succ k =>
          have below := ih k k.lt_succ_self
          exact relaid_bind (below.operand _ ts) fun right rest =>
            below.factors (.binary op span left right) rest
  · intro left ts
    rcases ts with _ | ⟨⟨l, span⟩, ts⟩
    · rw [List.map_nil, terms.eq_def, terms.eq_def]
      rfl
    rw [List.map_cons, Token.moved, terms.eq_def, terms.eq_def]
    cases l with
    | word | number | unknown => rfl
    | mark m =>
      dsimp only
      cases Operator.additive? m with
      | none => rfl
      | some op =>
        cases room with
        | zero => rfl
        | succ k =>
          have below := ih k k.lt_succ_self
          refine relaid_bind (below.operand _ ts) fun right rest => ?_
          exact relaid_bind (below.factors right rest) fun right rest =>
            below.terms (.binary op span left right) rest

theorem expression_moved (room : ℕ) (wanted : Wanted) (ts : List Token) :
    expression room wanted (ts.map (Token.moved o)) =
      relaid o (andRest o (Expr.moved o)) (expression room wanted ts) := by
  have moves := movesAt o room
  refine relaid_bind (moves.operand wanted ts) fun e rest => ?_
  exact relaid_bind (moves.factors e rest) fun e rest => moves.terms e rest

theorem definition_moved (ts : List Token) :
    definition (ts.map (Token.moved o)) =
      relaid o (andRest o (Definition.moved o)) (definition ts) := by
  refine relaid_bind (name_moved o ts) fun name rest => ?_
  refine relaid_bind (expect_moved o _ _ rest) fun colon rest => ?_
  refine relaid_bind (expression_moved o _ _ rest) fun type rest => ?_
  refine relaid_bind (expect_moved o _ _ rest) fun equals rest => ?_
  refine relaid_bind (expression_moved o _ _ rest) fun value rest => ?_
  exact relaid_bind (expect_moved o _ _ rest) fun semicolon rest => rfl

theorem definitions_moved (ts : List Token) :
    definitions (ts.map (Token.moved o)) =
      relaid o (List.map (Definition.moved o)) (definitions ts) := by
  fun_induction definitions ts with
  | case1 => rw [List.map_nil, definitions]; rfl
  | case2 t ts stop read =>
    have moved := definition_moved o (t :: ts)
    rw [read] at moved
    rw [definitions_of_ne_nil (by simp), moved]
    rfl
  | case3 t ts d rest read ih =>
    have moved := definition_moved o (t :: ts)
    rw [read] at moved
    rw [definitions_of_ne_nil (by simp), moved]
    change (definitions (rest.map (Token.moved o))).map _ = _
    rw [ih]
    cases definitions rest <;> rfl

end Parser

namespace Program

theorem splitAtEnd_moved (ts : List Token) :
    splitAtEnd (ts.map (Token.moved o)) =
      (splitAtEnd ts).map (Prod.map (List.map (Token.moved o)) (Token.moved o)) := by
  have same : (fun t : Token => !t.isEnd) ∘ Token.moved o = fun t => !t.isEnd := rfl
  rw [splitAtEnd, splitAtEnd, List.getLast?_map, List.dropWhile_map, List.takeWhile_map, same]
  cases ts.getLast? with
  | none => rfl
  | some last =>
    cases ts.dropWhile fun t => !t.isEnd with
    | nil => rfl
    | cons endMark rest =>
      dsimp only [Option.map_some, List.map_cons]
      change (if last.isEnd = true then _ else _) = _
      split <;> rfl

/-- The program that is read, or the error, is moved with the tokens. -/
theorem ofTokens_moved (ts : List Token) :
    ofTokens (ts.map (Token.moved o)) =
      (ofTokens ts).map (fun parsed => (parsed.map (moved o)).mapError (SyntaxError.moved o)) := by
  rw [ofTokens, ofTokens, splitAtEnd_moved]
  rcases splitAtEnd ts with fault | ⟨body, endMark⟩
  · rfl
  · rw [Except.map, ok_bind, ok_bind]
    dsimp only [Prod.map_fst, Prod.map_snd]
    rw [Parser.definitions_moved]
    cases Parser.definitions body with
    | ok ds => rfl
    | error stop =>
      obtain ⟨obstacle, rest⟩ := stop
      cases rest <;> rfl

end Program

end ConstLang
