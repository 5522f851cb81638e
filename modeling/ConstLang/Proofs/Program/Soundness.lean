import ConstLang.Proofs.Program.Grammar
import Mathlib.Data.Nat.Notation

/-!
# What is read is derived

A tree that is read from tokens is derived by the tokens that were taken for it.
-/

namespace ConstLang.Parser

variable {room : ℕ} {wanted : Wanted} {ts rest : List Token} {left e : Expr}

/-- An expression of a category is derived by the tokens before the rest. -/
def Took (c : Category) (ts : List Token) (e : Expr) (rest : List Token) : Prop :=
  ts = e.tokens ++ rest ∧ Derives c e.tokens e

/-- What the reading functions have taken is derived. -/
structure Sound (room : ℕ) : Prop where
  operand {wanted : Wanted} {ts rest : List Token} {e : Expr} :
    operand room wanted ts = .ok (e, rest) → Took .unary ts e rest
  factors {left e : Expr} {ts rest : List Token} : Derives .factor left.tokens left →
    factors room left ts = .ok (e, rest) → Took .factor (left.tokens ++ ts) e rest
  terms {left e : Expr} {ts rest : List Token} : Derives .term left.tokens left →
    terms room left ts = .ok (e, rest) → Took .term (left.tokens ++ ts) e rest

theorem Sound.factor (h : Sound room) {first : Expr} {us : List Token}
    (read_first : Parser.operand room wanted ts = .ok (first, us))
    (read : Parser.factors room first us = .ok (e, rest)) : Took .factor ts e rest := by
  obtain ⟨rfl, derived⟩ := h.operand read_first
  exact h.factors (.unary derived) read

theorem Sound.expression (h : Sound room)
    (read : Parser.expression room wanted ts = .ok (e, rest)) : Took .term ts e rest := by
  obtain ⟨e1, us, e2, vs, read1, read2, read3⟩ := expression_cases read
  obtain ⟨rfl, derived⟩ := h.factor read1 read2
  exact h.terms (.factor derived) read3

/-- Each level of nesting leaves less room, so that the induction is on the room. -/
theorem sound (room : ℕ) : Sound room := by
  induction room using Nat.strongRecOn with
  | ind room ih =>
  constructor
  · intro wanted ts rest e h
    obtain ⟨n, rfl, rfl⟩ | ⟨n, span, rfl, rfl⟩ | ⟨s, span, us, inner, k, less, rfl, read, rfl⟩ |
      ⟨opening, us, inner, closing, k, less, rfl, read, rfl⟩ := operand_cases h
    · exact ⟨rfl, .primary (.name n)⟩
    · exact ⟨rfl, .primary (.number n span)⟩
    · obtain ⟨rfl, derived⟩ := (ih k less).operand read
      exact ⟨rfl, .sign s span derived⟩
    · obtain ⟨rfl, derived⟩ := (ih k less).expression read
      exact ⟨by simp [Expr.tokens], .primary (.group opening closing derived)⟩
  · intro left e ts rest left_derived h
    obtain ⟨rfl, rfl⟩ | ⟨op, span, us, right, vs, k, less, tight, rfl, read, next⟩ :=
      factors_cases h
    · exact ⟨rfl, left_derived⟩
    · obtain ⟨rfl, derived⟩ := (ih k less).operand read
      have chain : Derives .factor (Expr.binary op span left right).tokens _ :=
        .multiplicative span tight left_derived derived
      simpa [Expr.tokens] using (ih k less).factors chain next
  · intro left e ts rest left_derived h
    obtain ⟨rfl, rfl⟩ | ⟨op, span, us, first, vs, right, ws, k, less, weak, rfl, read_first, read,
      next⟩ := terms_cases h
    · exact ⟨rfl, left_derived⟩
    · obtain ⟨rfl, derived⟩ := (ih k less).factor read_first read
      have chain : Derives .term (Expr.binary op span left right).tokens _ :=
        .additive span weak left_derived derived
      simpa [Expr.tokens] using (ih k less).terms chain next

theorem derives_of_definition {d : Definition} (h : definition ts = .ok (d, rest)) :
    ts = d.tokens ++ rest ∧ DerivesDefinition d.tokens d := by
  obtain ⟨us, vs, rfl, read_type, read_value⟩ := definition_cases h
  obtain ⟨rfl, type⟩ := (sound _).expression read_type
  obtain ⟨rfl, value⟩ := (sound _).expression read_value
  exact ⟨by simp [Definition.tokens], .mk d.name d.colon d.equals d.semicolon type value⟩

theorem derives_of_definitions {ds : List Definition} (h : definitions ts = .ok ds) :
    DerivesDefinitions ts ds := by
  induction ds generalizing ts with
  | nil =>
    cases ts with
    | nil => exact .nil
    | cons t ts =>
      rw [definitions_of_ne_nil (List.cons_ne_nil t ts)] at h
      obtain ⟨⟨d, us⟩, -, h⟩ := bind_eq_ok.1 h
      cases read : definitions us <;> simp [read, Except.map] at h
  | cons d ds ih =>
    cases ts with
    | nil => simp [definitions] at h
    | cons t ts =>
      rw [definitions_of_ne_nil (List.cons_ne_nil t ts)] at h
      obtain ⟨⟨d', us⟩, read, h⟩ := bind_eq_ok.1 h
      cases read_rest : definitions us with
      | error stop => simp [read_rest, Except.map] at h
      | ok ds' =>
        simp only [read_rest, Except.map, Except.ok.injEq, List.cons.injEq] at h
        obtain ⟨rfl, rfl⟩ := h
        obtain ⟨walk, derived⟩ := derives_of_definition read
        rw [walk]
        exact .cons derived (ih read_rest)

end ConstLang.Parser
