import ConstLang.Proofs.Decimal.Grid

/-!
# Quotients

A quotient is cut at a guard digit and then rounded, and comes to what rounding the exact quotient
comes to. On exponents that are held to a word it comes to the same, unless one of them overflows.
-/

namespace ConstLang

open Rational

namespace Narrow

variable {x y : Decimal} {rounding : Rounding}

theorem eq_of_leading {e : ℤ} (h : leading x = .ok e) : e = x.leading := by
  obtain ⟨behind, held, h⟩ := bind_eq_ok.1 h
  obtain rfl := eq_of_word held
  exact eq_of_word h

theorem eq_of_guardPlaces {places : ℤ} (h : guardPlaces x y rounding = .ok places) :
    places = Decimal.guardPlaces x y rounding := by
  cases rounding with
  | places count => exact eq_of_word h
  | significant count =>
    rw [guardPlaces] at h
    obtain ⟨digits, held, h⟩ := bind_eq_ok.1 h
    obtain ⟨p, hp, h⟩ := bind_eq_ok.1 h
    obtain ⟨q, hq, h⟩ := bind_eq_ok.1 h
    obtain ⟨distance, apart, h⟩ := bind_eq_ok.1 h
    rw [eq_of_word h, eq_of_word apart, eq_of_leading hq, eq_of_leading hp, eq_of_word held,
      Decimal.guardPlaces_significant]

theorem eq_of_cutQuotient {places : ℤ} {z : Decimal} (h : cutQuotient x y places = .ok z) :
    z = Decimal.cutQuotient x y places := by
  obtain ⟨distance, apart, h⟩ := bind_eq_ok.1 h
  obtain ⟨shift, shifted, h⟩ := bind_eq_ok.1 h
  obtain ⟨e, held, h⟩ := bind_eq_ok.1 h
  obtain rfl := eq_of_word apart
  obtain rfl := eq_of_word shifted
  obtain rfl := eq_of_word held
  exact eq_of_normal h

/-- A quotient that does not overflow is the plain one. -/
theorem eq_of_div? {z : Option Decimal} (h : div? x y rounding = .ok z) :
    z = x.div? y rounding := by
  unfold div? at h
  unfold Decimal.div?
  split at h
  · next divisor =>
    rw [if_pos divisor]
    exact (Except.ok.inj h).symm
  · next divisor =>
    rw [if_neg divisor]
    split at h
    · next dividend =>
      rw [if_pos dividend]
      exact (Except.ok.inj h).symm
    · next dividend =>
      obtain ⟨places, guarded, h⟩ := bind_eq_ok.1 h
      obtain ⟨quotient, made, h⟩ := bind_eq_ok.1 h
      obtain rfl := eq_of_guardPlaces guarded
      obtain rfl := eq_of_cutQuotient made
      rw [if_neg dividend]
      cases rounds :
          round (Decimal.cutQuotient x y (Decimal.guardPlaces x y rounding)) rounding with
      | error overflow => simp [rounds, Except.map] at h
      | ok r =>
        obtain rfl := eq_of_round rounds
        rw [rounds] at h
        exact (Except.ok.inj h).symm

end Narrow

namespace Decimal

/-- A quotient is rounded once. There is none by zero, and any other one comes to the number of the
grid that is nearest to the exact quotient: the digit that it is cut at before it is rounded makes
no difference, so that an exact quotient which is a decimal comes to the same when it is rounded.
The digits to round to are counted in a signed 64-bit word. The same is found on exponents that are
held to a word: where all of them fit there is no overflow, and without one there is no other
result. -/
theorem nearest_div? {rounding : Rounding} (word : rounding.InWord) (x y : Decimal) :
    (x.div? y rounding = none ↔ y.toRat = 0) ∧
    (∀ z, x.div? y rounding = some z →
      (∀ r, Nearest rounding.grid (x.toRat / y.toRat) r ↔ r = z.toRat) ∧
      ∀ w : Decimal, w.IsNormal → w.toRat = x.toRat / y.toRat → w.round rounding = z) ∧
    ((∀ n ∈ Narrow.divisionSteps x y rounding, inExponentRange n = true) →
      Narrow.div? x y rounding = .ok (x.div? y rounding)) ∧
    ∀ z, Narrow.div? x y rounding = .ok z → z = x.div? y rounding := by
  refine ⟨div?_eq_none_iff, fun z hz => ?_, Narrow.div?_of_inRange, fun z => Narrow.eq_of_div?⟩
  obtain ⟨-, value⟩ := toRat_div? word hz
  have nearest : Nearest rounding.grid (x.toRat / y.toRat) z.toRat :=
    value ▸ Rounding.nearest word.digits _
  refine ⟨fun r => ⟨fun other => ?_, fun same => same ▸ nearest⟩, fun w normal exact => ?_⟩
  · exact other.unique rounding.zero_mem_grid nearest
  · refine (normal.round rounding).eq_of_toRat_eq (isNormal_div? hz) ?_
    rw [toRat_round, exact, value]

/-- One eighth below zero is as near to both of its neighbours with two digits. -/
theorem nearest_div?_eighth :
    (Rounding.significant 2).InWord ∧
    div? ⟨1, 0⟩ ⟨-8, 0⟩ (.significant 2) = some ⟨-13, -2⟩ ∧
    Nearest (Rounding.significant 2).grid ((⟨1, 0⟩ : Decimal).toRat / (⟨-8, 0⟩ : Decimal).toRat)
      (⟨-13, -2⟩ : Decimal).toRat ∧
    (⟨-125, -3⟩ : Decimal).round (.significant 2) = ⟨-13, -2⟩ ∧
    Narrow.div? ⟨1, 0⟩ ⟨-8, 0⟩ (.significant 2) = .ok (some ⟨-13, -2⟩) := by
  have word : (Rounding.significant 2).InWord := ⟨by decide, by decide⟩
  have divided : div? ⟨1, 0⟩ ⟨-8, 0⟩ (.significant 2) = some ⟨-13, -2⟩ := by decide +kernel
  obtain ⟨-, exact, narrow, -⟩ := nearest_div? word ⟨1, 0⟩ ⟨-8, 0⟩
  obtain ⟨unique, rounded⟩ := exact _ divided
  exact ⟨word, divided, (unique _).2 rfl,
    rounded ⟨-125, -3⟩ (by decide) (by norm_num [toRat]),
    divided ▸ narrow (by decide +kernel)⟩

/-- The guard digit of the greatest number of places has no place in a word. -/
example : Narrow.div? ⟨1, 0⟩ ⟨3, 0⟩ (.places (2 ^ 63 - 1)) = .error ⟨2 ^ 63⟩ := by decide +kernel

/-- A number of digits that the word does not hold wraps around, and the quotient is cut too early:
here at one digit of two. -/
example : div? ⟨99, 0⟩ ⟨1, 2⟩ (.significant (2 ^ 64 - 1)) = some ⟨9, -1⟩ := by decide +kernel

end Decimal

end ConstLang
