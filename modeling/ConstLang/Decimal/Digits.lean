/-!
# Decimal digits

Powers of ten, and the digits of natural numbers. A large number is split in the middle of its
digits, and so is each half, which keeps the divisions of large numbers few; `ofNat_eq_toDigits`
says that the digits are those found one by one.
-/

namespace ConstLang

namespace Digits

/-- One with `zeros` zeros behind it. -/
def tenTo (zeros : Nat) : Nat := Nat.pow 10 zeros

theorem tenTo_pos (zeros : Nat) : 0 < tenTo zeros := Nat.pow_pos (by decide)

theorem tenTo_add (m n : Nat) : tenTo (m + n) = tenTo m * tenTo n := Nat.pow_add 10 m n

/-- One with `2 ^ k` zeros behind it. -/
def unit (k : Nat) : Nat := tenTo (Nat.pow 2 k)

theorem unit_zero : unit 0 = 10 := rfl

theorem unit_pos (k : Nat) : 0 < unit k := tenTo_pos _

theorem unit_succ (k : Nat) : unit (k + 1) = unit k * unit k := by
  rw [unit, unit, ← tenTo_add]
  exact congrArg tenTo ((Nat.pow_succ 2 k).trans (Nat.mul_two _))

/-- How often a number is split to get down to its digits. -/
def depth (n : Nat) : Nat := n.log2.log2 + 1

theorem lt_unit_depth (n : Nat) : n < unit (depth n) := by
  have few : n.log2 + 1 ≤ Nat.pow 2 (depth n) := Nat.lt_log2_self
  calc n < Nat.pow 2 (n.log2 + 1) := Nat.lt_log2_self
    _ ≤ Nat.pow 2 (Nat.pow 2 (depth n)) := Nat.pow_le_pow_right (by decide) few
    _ ≤ unit (depth n) := Nat.pow_le_pow_left (by decide) _

/-- The last `2 ^ k` digits of a number that has no others, with zeros in front as needed, followed
by `rest`. -/
def padded : Nat → Nat → List Char → List Char
  | 0, n, rest => n.digitChar :: rest
  | k + 1, n, rest => padded k (n / unit k) (padded k (n % unit k) rest)

theorem toDigits_append_padded (k high low : Nat) (rest : List Char) (pos : 0 < high)
    (lt : low < unit k) :
    Nat.toDigits 10 (unit k * high + low) ++ rest = Nat.toDigits 10 high ++ padded k low rest := by
  induction k generalizing high low rest with
  | zero =>
    have lt : low < 10 := lt
    rw [unit_zero, ← Nat.toDigits_append_toDigits (by decide) pos lt,
      Nat.toDigits_of_lt_base lt, padded, List.append_assoc, List.singleton_append]
  | succ k ih =>
    have split : unit (k + 1) * high + low =
        unit k * (unit k * high + low / unit k) + low % unit k := by
      rw [unit_succ, Nat.mul_add, Nat.mul_assoc, Nat.add_assoc, Nat.div_add_mod]
    have upper : low / unit k < unit k :=
      Nat.div_lt_of_lt_mul (unit_succ k ▸ lt)
    rw [split, ih _ _ _ (Nat.add_pos_left (Nat.mul_pos (unit_pos k) pos) _)
      (Nat.mod_lt _ (unit_pos k)), ih _ _ _ pos upper, padded]

/-- The digits of a number, which is split `k` times, followed by `rest`. -/
def written : Nat → Nat → List Char → List Char
  | 0, n, rest => Nat.toDigits 10 n ++ rest
  | k + 1, n, rest =>
    if n < unit k then written k n rest
    else written k (n / unit k) (padded k (n % unit k) rest)

theorem written_eq (k n : Nat) (rest : List Char) :
    written k n rest = Nat.toDigits 10 n ++ rest := by
  induction k generalizing n rest with
  | zero => rfl
  | succ k ih =>
    unfold written
    split
    · exact ih n rest
    · next large =>
      have pos : 0 < n / unit k := Nat.div_pos (Nat.le_of_not_lt large) (unit_pos k)
      rw [ih, ← toDigits_append_padded k _ _ rest pos (Nat.mod_lt _ (unit_pos k)),
        Nat.div_add_mod]

/-- The decimal digits of a number, without zeros in front; zero has one digit. -/
def ofNat (n : Nat) : List Char := written (depth n) n []

theorem ofNat_eq_toDigits (n : Nat) : ofNat n = Nat.toDigits 10 n := by
  rw [ofNat, written_eq, List.append_nil]

/-- The digits of an integer, behind a sign if it is negative. -/
def ofInt (n : Int) : List Char := if n < 0 then '-' :: ofNat n.natAbs else ofNat n.natAbs

end Digits

end ConstLang
