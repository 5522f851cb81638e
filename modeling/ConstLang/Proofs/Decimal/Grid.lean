import ConstLang.Proofs.Decimal.Nearest
import ConstLang.Proofs.Narrow.Decimal

/-!
# Rounding to a grid

Rounding a decimal finds the point of the grid that is nearest to it, whatever the sign of the
number and of the places, and however many places there are. It changes a number exactly if the
number is not on the grid already. On exponents that are held to a word it finds the same, unless it
overflows.
-/

namespace ConstLang

open Rational

namespace Rounding

variable {rounding : Rounding}

/-- A grid of one significant digit or more has a nearest point for every number. -/
theorem nearest (digits : rounding ≠ .significant 0) (q : ℚ) :
    Nearest rounding.grid q (rounding.apply q) := by
  cases rounding with
  | places count => exact nearest_toPlaces count q
  | significant count =>
    have pos : 0 < count := Nat.pos_of_ne_zero fun none => digits (congrArg _ none)
    exact nearest_toDigits pos q

/-- The numbers that a rounding keeps are the points of its grid. -/
theorem apply_eq_self_iff (digits : rounding ≠ .significant 0) {q : ℚ} :
    rounding.apply q = q ↔ q ∈ rounding.grid := by
  have near := nearest digits q
  exact ⟨fun kept => kept ▸ near.mem, fun mem => near.unique rounding.zero_mem_grid (.self mem)⟩

end Rounding

/-! ## Words -/

namespace Narrow

theorem eq_of_word {n e : ℤ} (h : word n = .ok e) : e = n := by
  unfold word at h
  split at h
  · exact (Except.ok.inj h).symm
  · contradiction

theorem eq_of_normal {mantissa exponent : ℤ} {y : Decimal} (h : normal mantissa exponent = .ok y) :
    y = Decimal.normal mantissa exponent := by
  unfold normal at h
  dsimp only at h
  cases held : word (Decimal.normal mantissa exponent).exponent with
  | error overflow => simp [held, Except.map] at h
  | ok e =>
    rw [held] at h
    obtain rfl := eq_of_word held
    exact (Except.ok.inj h).symm

/-- A rounding that does not overflow is the plain one. -/
theorem eq_of_round {x y : Decimal} {rounding : Rounding} (h : round x rounding = .ok y) :
    y = x.round rounding := by
  cases rounding with
  | places count =>
    obtain ⟨places, held, h⟩ := bind_eq_ok.1 h
    obtain rfl := eq_of_word held
    rw [Decimal.round]
    split at h
    · next fits =>
      rw [if_pos fits]
      exact (Except.ok.inj h).symm
    · next less =>
      obtain ⟨e, held, h⟩ := bind_eq_ok.1 h
      obtain rfl := eq_of_word held
      rw [if_neg less]
      exact eq_of_normal h
  | significant count =>
    rw [round] at h
    rw [Decimal.round]
    split at h
    · next few =>
      rw [if_pos few]
      exact (Except.ok.inj h).symm
    · next many =>
      obtain ⟨e, held, h⟩ := bind_eq_ok.1 h
      obtain rfl := eq_of_word held
      rw [if_neg many]
      exact eq_of_normal h

end Narrow

namespace Decimal

theorem round_eq_self_iff {x : Decimal} (normal : x.IsNormal) {rounding : Rounding}
    (digits : rounding ≠ .significant 0) : x.round rounding = x ↔ x.toRat ∈ rounding.grid := by
  rw [← Rounding.apply_eq_self_iff digits, ← toRat_round]
  exact ⟨congrArg toRat, (normal.round rounding).eq_of_toRat_eq normal⟩

/-- Rounding to places or to one significant digit or more finds the nearest number of the grid, and
of two that are as near the one of larger magnitude. A number of the grid is returned as it is, and
no other one. The same is found on exponents that are held to a word: where all of them fit there is
no overflow, and without one there is no other result. -/
theorem nearest_round {x : Decimal} (normal : x.IsNormal) {rounding : Rounding}
    (digits : rounding ≠ .significant 0) :
    (∀ r, Nearest rounding.grid x.toRat r ↔ r = (x.round rounding).toRat) ∧
    (x.round rounding = x ↔ x.toRat ∈ rounding.grid) ∧
    (x.round rounding).IsNormal ∧
    ((∀ n ∈ (x.round rounding).exponent :: Narrow.steps x rounding,
        inExponentRange n = true) →
      Narrow.round x rounding = .ok (x.round rounding)) ∧
    ∀ y, Narrow.round x rounding = .ok y → y = x.round rounding := by
  have near : Nearest rounding.grid x.toRat (x.round rounding).toRat :=
    x.toRat_round rounding ▸ Rounding.nearest digits x.toRat
  refine ⟨fun r => ⟨fun other => ?_, fun same => same ▸ near⟩, round_eq_self_iff normal digits,
    normal.round rounding, Narrow.round_of_inRange, fun y => Narrow.eq_of_round⟩
  exact other.unique rounding.zero_mem_grid near

/-- Halfway below zero, the digits of `-99.95` carry into a new one; and `25` is halfway between two
tens. -/
theorem nearest_round_carry :
    (⟨-9995, -2⟩ : Decimal).IsNormal ∧ Rounding.places 1 ≠ .significant 0 ∧
    (⟨-9995, -2⟩ : Decimal).round (.places 1) = ⟨-1, 2⟩ ∧
    Nearest (Rounding.places 1).grid (⟨-9995, -2⟩ : Decimal).toRat (⟨-1, 2⟩ : Decimal).toRat ∧
    (⟨-9995, -2⟩ : Decimal).toRat ∉ (Rounding.places 1).grid ∧
    Narrow.round ⟨-9995, -2⟩ (.places 1) = .ok ⟨-1, 2⟩ ∧
    Nearest (Rounding.places (-1)).grid (⟨25, 0⟩ : Decimal).toRat (⟨3, 1⟩ : Decimal).toRat := by
  have normal : (⟨-9995, -2⟩ : Decimal).IsNormal := by decide
  have tenth : Rounding.places 1 ≠ .significant 0 := nofun
  have ten : Rounding.places (-1) ≠ .significant 0 := nofun
  have carried : (⟨-9995, -2⟩ : Decimal).round (.places 1) = ⟨-1, 2⟩ := by decide +kernel
  have tens : (⟨25, 0⟩ : Decimal).round (.places (-1)) = ⟨3, 1⟩ := by decide +kernel
  obtain ⟨nearest, kept, -, narrow, -⟩ := nearest_round normal tenth
  obtain ⟨halfway, -⟩ := nearest_round (show (⟨25, 0⟩ : Decimal).IsNormal by decide) ten
  refine ⟨normal, tenth, carried, (nearest _).2 (congrArg toRat carried).symm, ?_, ?_,
    (halfway _).2 (congrArg toRat tens).symm⟩
  · rw [← kept, carried]
    decide
  · rw [carried] at narrow
    exact narrow (by decide +kernel)

/-- Without a digit there is no grid but zero, and a large digit comes to a power of ten. -/
example : (⟨5, 0⟩ : Decimal).round (.significant 0) = ⟨1, 1⟩ := by decide +kernel

end Decimal

end ConstLang
