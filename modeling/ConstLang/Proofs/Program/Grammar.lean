import ConstLang.Program.Parser

/-!
# The grammar of programs

The grammar is a relation between tokens and the tree that they derive, with one rule for each
production. Chains of operators are derived from the left, so that a tree leans the way its
operators associate.

A tree can also be walked for its tokens, and its shape alone tells whether the precedences were
kept. `derives_iff` and `derivesProgram_iff` say that the two views agree: tokens derive a tree if
they are the tokens of the tree and the tree has a standard shape.
-/

namespace ConstLang

/-! ## Derivations -/

/-- The nonterminals of expressions, those that bind tightest first. -/
inductive Category
  | primary | unary | factor | term

/-- Tokens derive an expression of a category. -/
inductive Derives : Category → List Token → Expr → Prop
  | name (n : Name) : Derives .primary [n.token] (.access n)
  | number (n : Numeral) (span : Span) : Derives .primary [⟨.number n, span⟩] (.literal n span)
  | group {ts : List Token} {e : Expr} (opening closing : Span) : Derives .term ts e →
      Derives .primary (Mark.leftParen.token opening :: ts ++ [Mark.rightParen.token closing])
        (.group opening e closing)
  | primary {ts : List Token} {e : Expr} : Derives .primary ts e → Derives .unary ts e
  | sign {ts : List Token} {e : Expr} (s : Sign) (span : Span) : Derives .unary ts e →
      Derives .unary (s.mark.token span :: ts) (.unary s span e)
  | unary {ts : List Token} {e : Expr} : Derives .unary ts e → Derives .factor ts e
  | multiplicative {ts us : List Token} {l r : Expr} {op : Operator} (span : Span)
      (tight : op.isAdditive = false) : Derives .factor ts l → Derives .unary us r →
      Derives .factor (ts ++ op.mark.token span :: us) (.binary op span l r)
  | factor {ts : List Token} {e : Expr} : Derives .factor ts e → Derives .term ts e
  | additive {ts us : List Token} {l r : Expr} {op : Operator} (span : Span)
      (weak : op.isAdditive = true) : Derives .term ts l → Derives .factor us r →
      Derives .term (ts ++ op.mark.token span :: us) (.binary op span l r)

/-- Tokens derive a definition `name : type = value ;`. -/
inductive DerivesDefinition : List Token → Definition → Prop
  | mk {ts us : List Token} {type value : Expr} (name : Name) (colon equals semicolon : Span) :
      Derives .term ts type → Derives .term us value →
      DerivesDefinition
        (name.token :: Mark.colon.token colon :: ts ++ Mark.equals.token equals :: us ++
          [Mark.semicolon.token semicolon])
        ⟨name, colon, type, equals, value, semicolon⟩

/-- Tokens derive definitions in a row. -/
inductive DerivesDefinitions : List Token → List Definition → Prop
  | nil : DerivesDefinitions [] []
  | cons {ts us : List Token} {d : Definition} {ds : List Definition} : DerivesDefinition ts d →
      DerivesDefinitions us ds → DerivesDefinitions (ts ++ us) (d :: ds)

/-- Tokens derive a program: definitions, and then the end mark. -/
inductive DerivesProgram : List Token → Program → Prop
  | mk {ts : List Token} {ds : List Definition} (endMark : Span) : DerivesDefinitions ts ds →
      DerivesProgram (ts ++ [Mark.endOfFile.token endMark]) ⟨ds, endMark⟩

/-! ## Walking a tree -/

namespace Expr

/-- The tokens of an expression in the order of the source: a group with its parentheses, a sign
before its operand, and an operator between its operands. -/
def tokens : Expr → List Token
  | literal n span => [⟨.number n, span⟩]
  | access n => [n.token]
  | group opening inner closing =>
    Mark.leftParen.token opening :: inner.tokens ++ [Mark.rightParen.token closing]
  | unary sign span operand => sign.mark.token span :: operand.tokens
  | binary op span left right => left.tokens ++ op.mark.token span :: right.tokens

/-- Whether an expression is an ungrouped binary operation. -/
def isBinary : Expr → Bool
  | binary _ _ _ _ => true
  | _ => false

/-- Whether an expression is a sign with its operand. -/
def isUnary : Expr → Bool
  | unary _ _ _ => true
  | _ => false

/-- Whether an expression is an ungrouped additive operation. -/
def isAdditive : Expr → Bool
  | binary op _ _ _ => op.isAdditive
  | _ => false

/-- Every operator stands over operands that bind tighter, or as tightly on its left. -/
def Standard : Expr → Prop
  | literal _ _ | access _ => True
  | group _ inner _ => inner.Standard
  | unary _ _ operand => operand.isBinary = false ∧ operand.Standard
  | binary op _ left right =>
    (if op.isAdditive then right.isAdditive = false
      else left.isAdditive = false ∧ right.isBinary = false) ∧
    left.Standard ∧ right.Standard

instance decidableStandard : (e : Expr) → Decidable e.Standard
  | literal _ _ | access _ => inferInstanceAs (Decidable True)
  | group _ inner _ => decidableStandard inner
  | unary _ _ operand =>
    have := decidableStandard operand
    inferInstanceAs (Decidable (operand.isBinary = false ∧ operand.Standard))
  | binary op _ left right =>
    have := decidableStandard left
    have := decidableStandard right
    inferInstanceAs (Decidable ((if op.isAdditive then right.isAdditive = false
      else left.isAdditive = false ∧ right.isBinary = false) ∧ left.Standard ∧ right.Standard))

theorem isAdditive_of_isBinary {e : Expr} (h : e.isBinary = false) : e.isAdditive = false := by
  cases e <;> first | rfl | contradiction

end Expr

namespace Definition

/-- The tokens of a definition in the order of the source. -/
def tokens (d : Definition) : List Token :=
  d.name.token :: Mark.colon.token d.colon :: d.type.tokens ++
    Mark.equals.token d.equals :: d.value.tokens ++ [Mark.semicolon.token d.semicolon]

/-- The type expression and the value expression. -/
def exprs (d : Definition) : List Expr := [d.type, d.value]

end Definition

namespace Program

/-- The tokens of a program in the order of the source, the end mark included. -/
def tokens (p : Program) : List Token :=
  p.definitions.flatMap Definition.tokens ++ [Mark.endOfFile.token p.endMark]

/-- The type and value expressions of a program. -/
def exprs (p : Program) : List Expr := p.definitions.flatMap Definition.exprs

end Program

/-! ## The two views -/

/-- The categories that a tree belongs to by its topmost operator. -/
def Category.Admits : Category → Expr → Prop
  | primary, e => e.isBinary = false ∧ e.isUnary = false
  | unary, e => e.isBinary = false
  | factor, e => e.isAdditive = false
  | term, _ => True

theorem Derives.of_primary {ts : List Token} {e : Expr} (h : Derives .primary ts e) :
    ∀ c, Derives c ts e
  | .primary => h
  | .unary => .primary h
  | .factor => .unary (.primary h)
  | .term => .factor (.unary (.primary h))

/-- What is derived is the walk over the tree, which has a standard shape. -/
theorem Derives.walk {c : Category} {ts : List Token} {e : Expr} (h : Derives c ts e) :
    ts = e.tokens ∧ e.Standard ∧ c.Admits e := by
  induction h with
  | name n => exact ⟨rfl, trivial, rfl, rfl⟩
  | number n span => exact ⟨rfl, trivial, rfl, rfl⟩
  | group opening closing _ ih =>
    obtain ⟨rfl, standard, -⟩ := ih
    exact ⟨rfl, standard, rfl, rfl⟩
  | primary _ ih =>
    obtain ⟨rfl, standard, admits⟩ := ih
    exact ⟨rfl, standard, admits.1⟩
  | sign s span _ ih =>
    obtain ⟨rfl, standard, admits⟩ := ih
    exact ⟨rfl, ⟨admits, standard⟩, rfl⟩
  | unary _ ih =>
    obtain ⟨rfl, standard, admits⟩ := ih
    exact ⟨rfl, standard, Expr.isAdditive_of_isBinary admits⟩
  | multiplicative span tight _ _ ihl ihr =>
    obtain ⟨rfl, hl, admitsl⟩ := ihl
    obtain ⟨rfl, hr, admitsr⟩ := ihr
    refine ⟨rfl, ⟨?_, hl, hr⟩, tight⟩
    rw [if_neg (by simp [tight])]
    exact ⟨admitsl, admitsr⟩
  | factor _ ih =>
    obtain ⟨rfl, standard, -⟩ := ih
    exact ⟨rfl, standard, trivial⟩
  | additive span weak _ _ ihl ihr =>
    obtain ⟨rfl, hl, -⟩ := ihl
    obtain ⟨rfl, hr, admitsr⟩ := ihr
    refine ⟨rfl, ⟨?_, hl, hr⟩, trivial⟩
    rw [if_pos weak]
    exact admitsr

/-- A tree of standard shape is derived by its walk. -/
theorem Expr.Standard.derives {e : Expr} (h : e.Standard) {c : Category} (admits : c.Admits e) :
    Derives c e.tokens e := by
  induction e generalizing c with
  | literal n span => exact (Derives.number n span).of_primary c
  | access n => exact (Derives.name n).of_primary c
  | group opening inner closing ih =>
    exact (Derives.group opening closing (ih h (c := .term) trivial)).of_primary c
  | unary s span operand ih =>
    have derived := Derives.sign s span (ih h.2 (c := .unary) h.1)
    cases c with
    | primary => cases admits.2
    | unary => exact derived
    | factor => exact .unary derived
    | term => exact .factor (.unary derived)
  | binary op span left right ihl ihr =>
    obtain ⟨shape, hl, hr⟩ := h
    by_cases weak : op.isAdditive = true
    · rw [if_pos weak] at shape
      have derived := Derives.additive span weak (ihl hl (c := .term) trivial)
        (ihr hr (c := .factor) shape)
      cases c with
      | primary => cases admits.1
      | unary => cases admits
      | factor =>
        have tight : op.isAdditive = false := admits
        simp [tight] at weak
      | term => exact derived
    · rw [if_neg weak] at shape
      have derived := Derives.multiplicative span (by simpa using weak)
        (ihl hl (c := .factor) shape.1) (ihr hr (c := .unary) shape.2)
      cases c with
      | primary => cases admits.1
      | unary => cases admits
      | factor => exact derived
      | term => exact .factor derived

theorem derives_iff {c : Category} {ts : List Token} {e : Expr} :
    Derives c ts e ↔ ts = e.tokens ∧ e.Standard ∧ c.Admits e := by
  refine ⟨Derives.walk, ?_⟩
  rintro ⟨rfl, standard, admits⟩
  exact standard.derives admits

theorem derivesDefinition_iff {ts : List Token} {d : Definition} :
    DerivesDefinition ts d ↔ ts = d.tokens ∧ ∀ e ∈ d.exprs, e.Standard := by
  constructor
  · rintro ⟨name, colon, equals, semicolon, type, value⟩
    obtain ⟨rfl, standard_type, -⟩ := type.walk
    obtain ⟨rfl, standard_value, -⟩ := value.walk
    exact ⟨rfl, by simp [Definition.exprs, standard_type, standard_value]⟩
  · rintro ⟨rfl, standard⟩
    exact .mk d.name d.colon d.equals d.semicolon
      ((standard d.type (by simp [Definition.exprs])).derives (c := .term) trivial)
      ((standard d.value (by simp [Definition.exprs])).derives (c := .term) trivial)

theorem derivesDefinitions_iff {ts : List Token} {ds : List Definition} :
    DerivesDefinitions ts ds ↔
      ts = ds.flatMap Definition.tokens ∧ ∀ e ∈ ds.flatMap Definition.exprs, e.Standard := by
  constructor
  · intro h
    induction h with
    | nil => simp
    | cons hd _ ih =>
      obtain ⟨rfl, standard⟩ := derivesDefinition_iff.1 hd
      obtain ⟨rfl, standards⟩ := ih
      refine ⟨rfl, fun e mem => ?_⟩
      rw [List.flatMap_cons, List.mem_append] at mem
      exact mem.elim (standard e) (standards e)
  · rintro ⟨rfl, standards⟩
    induction ds with
    | nil => exact .nil
    | cons d ds ih =>
      simp only [List.flatMap_cons, List.mem_append] at standards ⊢
      exact .cons (derivesDefinition_iff.2 ⟨rfl, fun e mem => standards e (.inl mem)⟩)
        (ih fun e mem => standards e (.inr mem))

theorem derivesProgram_iff {ts : List Token} {p : Program} :
    DerivesProgram ts p ↔ ts = p.tokens ∧ ∀ e ∈ p.exprs, e.Standard := by
  constructor
  · rintro ⟨endMark, derived⟩
    obtain ⟨rfl, standards⟩ := derivesDefinitions_iff.1 derived
    exact ⟨rfl, standards⟩
  · rintro ⟨rfl, standards⟩
    exact .mk p.endMark (derivesDefinitions_iff.2 ⟨rfl, standards⟩)

end ConstLang
