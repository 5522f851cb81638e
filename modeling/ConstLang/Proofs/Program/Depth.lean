import ConstLang.Proofs.Program.Grammar
import Mathlib.Tactic.Linarith
import Mathlib.Tactic.Ring

/-!
# The depth of trees

`Expr.depth` is the number of nodes on the longest path through an expression, and `Expr.peak` the
number of levels that are open at once while it is read. A chain of operators opens one level for
each operator, and its operands open theirs on top of the levels before them: what stands on the
left is closed by then, and does not count.

So the depth exceeds the peak where operands nest on the left. `depth_le` bounds by how much, and
`depth_deepest` meets the bound.
-/

namespace ConstLang.Expr

/-- The number of groups, signs and operators on the longest path from the root to a leaf. -/
def depth : Expr → ℕ
  | literal _ _ | access _ => 0
  | group _ inner _ => inner.depth + 1
  | unary _ _ operand => operand.depth + 1
  | binary _ _ left right => max left.depth right.depth + 1

/-- The number of ungrouped operators of one precedence that are met one below the other, going
down left operands from the root. -/
def chain (additive : Bool) : Expr → ℕ
  | binary op _ left _ => if op.isAdditive = additive then left.chain additive + 1 else 0
  | _ => 0

/-- The number of levels that are open at once. -/
def peak : Expr → ℕ
  | literal _ _ | access _ => 0
  | group _ inner _ => inner.peak + 1
  | unary _ _ operand => operand.peak + 1
  | binary op _ left right => max left.peak (left.chain op.isAdditive + 1 + right.peak)

theorem chain_of_isBinary {e : Expr} (h : e.isBinary = false) (additive : Bool) :
    e.chain additive = 0 := by
  cases e <;> first | rfl | contradiction

theorem chain_of_isAdditive {e : Expr} (h : e.isAdditive = false) : e.chain true = 0 := by
  cases e with
  | binary op _ _ _ =>
    have tight : op.isAdditive = false := h
    simp [chain, tight]
  | _ => rfl

theorem chain_le_peak (e : Expr) (additive : Bool) : e.chain additive ≤ e.peak := by
  cases e with
  | binary op _ left right =>
    unfold chain peak
    split
    · next same =>
      rw [same]
      omega
    · omega
  | _ => simp [chain]

/-- How deep a tree of standard shape is, by its topmost operator: the levels of its chains are
closed on the way down to the leftmost operand, which may open as many again. -/
theorem Standard.depth_le_of_shape {e : Expr} (h : e.Standard) :
    (e.isBinary = false → e.depth ≤ e.peak ^ 2) ∧
    (e.isAdditive = false → e.depth ≤ e.chain false + e.peak ^ 2) ∧
    e.depth ≤ e.chain true + e.peak + e.peak ^ 2 := by
  have of_factor {e : Expr} (bound : e.depth ≤ e.chain false + e.peak ^ 2) :
      e.depth ≤ e.chain true + e.peak + e.peak ^ 2 := by
    have := e.chain_le_peak false
    omega
  have of_operand {e : Expr} (bound : e.depth ≤ e.peak ^ 2) :
      (e.isBinary = false → e.depth ≤ e.peak ^ 2) ∧
      (e.isAdditive = false → e.depth ≤ e.chain false + e.peak ^ 2) ∧
      e.depth ≤ e.chain true + e.peak + e.peak ^ 2 :=
    ⟨fun _ => bound, fun _ => by omega, of_factor (by omega)⟩
  induction e with
  | literal n span => exact of_operand (by simp [depth])
  | access n => exact of_operand (by simp [depth])
  | group opening inner closing ih =>
    obtain ⟨-, -, bound⟩ := ih h
    have := inner.chain_le_peak true
    refine of_operand ?_
    simp only [depth, peak]
    nlinarith
  | unary s span operand ih =>
    have bound := (ih h.2).1 h.1
    refine of_operand ?_
    simp only [depth, peak]
    nlinarith [operand.peak.zero_le]
  | binary op span left right ihl ihr =>
    obtain ⟨shape, hl, hr⟩ := h
    have left_peak : left.peak ≤ (binary op span left right).peak := le_max_left _ _
    have right_peak :
        left.chain op.isAdditive + 1 + right.peak ≤ (binary op span left right).peak :=
      le_max_right _ _
    have left_square := Nat.pow_le_pow_left left_peak 2
    have right_square : right.peak ^ 2 ≤ (binary op span left right).peak ^ 2 :=
      Nat.pow_le_pow_left (by omega) 2
    cases weak : op.isAdditive with
    | false =>
      rw [if_neg (by simp [weak])] at shape
      have left_bound := (ihl hl).2.1 shape.1
      have right_bound := (ihr hr).1 shape.2
      have bound : (binary op span left right).depth ≤
          (binary op span left right).chain false + (binary op span left right).peak ^ 2 := by
        simp only [depth, chain, weak, if_true]
        omega
      exact ⟨nofun, fun _ => bound, of_factor bound⟩
    | true =>
      rw [if_pos weak] at shape
      have left_bound := (ihl hl).2.2
      have right_bound := (ihr hr).2.1 shape
      have := right.chain_le_peak false
      refine ⟨nofun, fun h => ?_, ?_⟩
      · simp [isAdditive, weak] at h
      · simp only [depth, chain, weak, if_true]
        omega

/-- The depth of a tree is bounded by the levels that are open at once, but not by their number. -/
theorem Standard.depth_le {e : Expr} (h : e.Standard) {room : ℕ} (fits : e.peak ≤ room) :
    e.depth ≤ room * (room + 2) := by
  have bound := h.depth_le_of_shape.2.2
  have := e.chain_le_peak true
  nlinarith

/-! ## The bound is met -/

/-- Operators in a row after an expression, with a name for each right operand. -/
def repeated (op : Operator) (n : Name) (e : Expr) : ℕ → Expr
  | 0 => e
  | k + 1 => .binary op n.span (e.repeated op n k) (.access n)

/-- A deepest tree for this many levels: a group of the deepest tree for one level less, with as
many multiplicative operators after it as there are levels, and then as many additive ones. -/
def deepest (n : Name) : ℕ → Expr
  | 0 => .access n
  | room + 1 =>
    ((group n.span (deepest n room) n.span).repeated .multiply n (room + 1)).repeated .add n
      (room + 1)

section repeated

variable (op : Operator) (n : Name) (e : Expr) (k : ℕ)

theorem depth_repeated : (e.repeated op n k).depth = e.depth + k := by
  induction k with
  | zero => rfl
  | succ k ih =>
    simp only [repeated, depth, ih]
    omega

theorem chain_repeated :
    (e.repeated op n k).chain op.isAdditive = e.chain op.isAdditive + k := by
  induction k with
  | zero => rfl
  | succ k ih =>
    simp only [repeated, chain, if_true, ih]
    omega

theorem peak_repeated :
    (e.repeated op n k).peak = max e.peak (e.chain op.isAdditive + k) := by
  induction k with
  | zero =>
    have := e.chain_le_peak op.isAdditive
    simp only [repeated]
    omega
  | succ k ih =>
    simp only [repeated, peak, chain_repeated, ih]
    omega

theorem isAdditive_repeated (tight : op.isAdditive = false) (h : e.isAdditive = false) :
    (e.repeated op n k).isAdditive = false := by
  cases k with
  | zero => exact h
  | succ k => exact tight

variable {op e}

theorem Standard.repeated (h : e.Standard) (shape : op.isAdditive = true ∨ e.isAdditive = false) :
    (e.repeated op n k).Standard := by
  induction k with
  | zero => exact h
  | succ k ih =>
    refine ⟨?_, ih, trivial⟩
    cases weak : op.isAdditive with
    | true => simp [isAdditive]
    | false =>
      have left := isAdditive_repeated op n e k weak (shape.resolve_left (by simp [weak]))
      simp [left, isBinary]

end repeated

variable (n : Name) (room : ℕ)

theorem standard_deepest : (deepest n room).Standard := by
  induction room with
  | zero => trivial
  | succ room ih =>
    have grouped : (group n.span (deepest n room) n.span).Standard := ih
    exact (grouped.repeated n (room + 1) (.inr rfl)).repeated n (room + 1) (.inl rfl)

theorem peak_deepest : (deepest n room).peak = room := by
  induction room with
  | zero => rfl
  | succ room ih =>
    set grouped := group n.span (deepest n room) n.span with hg
    have grouped_peak : grouped.peak = room + 1 := by rw [hg, peak, ih]
    have grouped_chain : grouped.chain (Operator.isAdditive .multiply) = 0 := rfl
    have factors_chain : (grouped.repeated .multiply n (room + 1)).chain true = 0 :=
      chain_of_isAdditive (isAdditive_repeated _ _ _ _ rfl rfl)
    rw [deepest, peak_repeated, peak_repeated, ← hg, grouped_chain, grouped_peak,
      Operator.isAdditive, factors_chain]
    omega

theorem depth_deepest : (deepest n room).depth = room * (room + 2) := by
  induction room with
  | zero => rfl
  | succ room ih =>
    rw [deepest, depth_repeated, depth_repeated, depth, ih]
    ring

end ConstLang.Expr
