import LabelQuery.Number.Binary64
import LabelQuery.Proofs.Number.Rounding
import Mathlib.Algebra.Order.Field.Rat
import Mathlib.Tactic.NormNum

/-!
# Number — the limit as a rational number

The last midpoint is `2 ^ 1024 - 2 ^ 970`, counted in units. A number in a positional system rounds to
a finite magnitude exactly if it is less than that, whatever its exponent.

* `div_lt_limit_iff` — quotients below the limit, as an inequality between natural numbers.
* `Magnitude.isFinite_ofDecimal` — a number times a power of ten is in range exactly below the limit.
-/

namespace LabelQuery.Number

/-! ## One, in units -/

/-- The place of one among the powers of two, in units. -/
def onePlace : Nat := 1074

theorem one_eq : one = 2 ^ onePlace := by
  have hplace : 1074 = onePlace := rfl
  unfold one
  rw [hplace, Nat.pow_eq]

theorem one_pos : 0 < one := by
  rw [one_eq]
  exact Nat.two_pow_pos onePlace

/-! ## Below the limit -/

/-- A limit of the form `2 ^ (a + 54) - 2 ^ a`, in units of `2 ^ -b`, is a midpoint. The subtraction
is moved to the other side, where natural numbers can state it. -/
theorem limit_mul_two_pow (a b : Nat) :
    ((2 : ℚ) ^ (a + 54) - 2 ^ a) * ((2 ^ b : Nat) : ℚ) = midpoint (a + b) := by
  have hsum : ((midpoint (a + b) + 2 ^ (a + b) : Nat) : ℚ) = (2 ^ (a + b + 54) : Nat) :=
    congrArg Nat.cast (midpoint_add (a + b))
  push_cast at hsum ⊢
  -- the midpoint is the power of two less half a step
  rw [← eq_sub_iff_add_eq] at hsum
  rw [hsum]
  ring

/-- The limit, counted in units, is the last midpoint. -/
theorem limit_mul_one : ((2 : ℚ) ^ 1024 - 2 ^ 970) * one = midpoint topPlace := by
  rw [one_eq]
  exact limit_mul_two_pow 970 onePlace

/-- Quotients below the limit, as an inequality between natural numbers. Both sides are multiplied
by the denominator and by one in units; the rest of the theory works with natural numbers only. -/
theorem div_lt_limit_iff {num den : Nat} (hden : 0 < den) :
    (num / den : ℚ) < 2 ^ 1024 - 2 ^ 970 ↔ num * one < midpoint topPlace * den := by
  have hden' : (0 : ℚ) < den := Nat.cast_pos.2 hden
  have hone : (0 : ℚ) < one := Nat.cast_pos.2 one_pos
  rw [div_lt_iff₀ hden', ← mul_lt_mul_iff_left₀ hone, mul_right_comm, limit_mul_one]
  exact_mod_cast Iff.rfl

/-- The limit is positive: zero is below it, because the midpoints are positive. -/
theorem limit_pos : (0 : ℚ) < 2 ^ 1024 - 2 ^ 970 := by
  have h : ((0 : Nat) / (1 : Nat) : ℚ) < 2 ^ 1024 - 2 ^ 970 := by
    rw [div_lt_limit_iff Nat.one_pos, Nat.zero_mul, Nat.mul_one]
    exact midpoint_pos topPlace
  rwa [Nat.cast_zero, zero_div] at h

/-- A whole number times a power, with an exponent that is not negative, as the numerator of a
quotient. -/
theorem mul_zpow_lt_limit_iff (m b k : Nat) :
    (m : ℚ) * (b : ℚ) ^ (k : ℤ) < 2 ^ 1024 - 2 ^ 970 ↔ m * b ^ k * one < midpoint topPlace := by
  have h := @div_lt_limit_iff (m * b ^ k) 1 Nat.one_pos
  rw [Nat.mul_one, Nat.cast_one, div_one] at h
  rw [← h, zpow_natCast]
  push_cast
  rfl

/-- A whole number times a power, with an exponent that is not positive: the power is the
denominator of a quotient. -/
theorem mul_zpow_neg_lt_limit_iff (m : Nat) {b : Nat} (hb : 0 < b) (k : Nat) :
    (m : ℚ) * (b : ℚ) ^ (-(k : ℤ)) < 2 ^ 1024 - 2 ^ 970 ↔
      m * one < midpoint topPlace * b ^ k := by
  rw [← div_lt_limit_iff (Nat.pow_pos hb), zpow_neg, zpow_natCast, ← div_eq_mul_inv]
  push_cast
  rfl

/-! ## Decimal magnitudes -/

/-- A power of ten has at least three bits for each of its digits, which bounds the powers that are
not formed. -/
theorem two_pow_le_ten_pow (k : Nat) : 2 ^ (3 * k) ≤ 10 ^ k := by
  rw [Nat.pow_mul]
  exact Nat.pow_le_pow_left (by omega) k

namespace Magnitude

/-- Decimal magnitudes with an exponent that is not negative. Zero is in range, a power of ten above
`10 ^ 400` takes any other number out of it, and the rest is a rounded whole number. -/
theorem isFinite_ofDecimal_natCast (m k : Nat) :
    (ofDecimal m k).isFinite ↔ m * 10 ^ k * one < midpoint topPlace := by
  unfold ofDecimal
  split
  · next hzero =>
    rw [hzero, Nat.zero_mul, Nat.zero_mul]
    exact iff_of_true rfl (midpoint_pos topPlace)
  · next hm =>
    split
    · next hlarge =>
      -- the power of ten has passed the limit by itself
      have hle : midpoint topPlace ≤ m * 10 ^ k * one := by
        calc midpoint topPlace ≤ 2 ^ (topPlace + 54) := (midpoint_lt topPlace).le
          _ ≤ 2 ^ (3 * k + onePlace) :=
            Nat.pow_le_pow_right Nat.two_pos (by unfold topPlace onePlace; omega)
          _ = 2 ^ (3 * k) * one := by rw [one_eq, Nat.pow_add]
          _ ≤ m * 10 ^ k * one := Nat.mul_le_mul_right one
            ((two_pow_le_ten_pow k).trans (Nat.le_mul_of_pos_left _ (Nat.pos_of_ne_zero hm)))
      exact iff_of_false Bool.false_ne_true (not_lt.2 hle)
    · -- the power is formed, and the product is rounded
      rw [if_pos (Int.natCast_nonneg k), Int.toNat_natCast, isFinite_nearest Nat.one_pos,
        Nat.mul_one]
      rfl

/-- Decimal magnitudes with a negative exponent. A power of ten that has more bits than the number
of units is not formed; the quotient is less than one unit then, and so in range. -/
theorem isFinite_ofDecimal_neg (m k : Nat) :
    (ofDecimal m (-(k + 1 : Nat))).isFinite ↔ m * one < midpoint topPlace * 10 ^ (k + 1) := by
  have hsmall : ¬ (400 : Int) < -(k + 1 : Nat) := by omega
  have hneg : ¬ (0 : Int) ≤ -(k + 1 : Nat) := by omega
  unfold ofDecimal
  rw [if_neg hsmall, if_neg hneg, neg_neg, Int.toNat_natCast]
  split
  · next hzero =>
    rw [hzero, Nat.zero_mul]
    exact iff_of_true rfl (Nat.mul_pos (midpoint_pos topPlace) (Nat.pow_pos (by omega)))
  · split
    · next htiny =>
      -- the power of ten is greater than the number of units it divides
      have hlt : m * one < midpoint topPlace * 10 ^ (k + 1) := by
        calc m * one < 2 ^ ((m * one).log2 + 1) := Nat.lt_log2_self
          _ ≤ 2 ^ (3 * (k + 1)) := Nat.pow_le_pow_right Nat.two_pos (by omega)
          _ ≤ 10 ^ (k + 1) := two_pow_le_ten_pow (k + 1)
          _ ≤ midpoint topPlace * 10 ^ (k + 1) := Nat.le_mul_of_pos_left _ (midpoint_pos topPlace)
      exact iff_of_true rfl hlt
    · -- the power is formed, and the quotient is rounded
      exact isFinite_nearest (Nat.pow_pos (by omega))

/-- **Decimal magnitudes are in range exactly below the limit**, for numbers and exponents of any
size. The sign of the exponent decides whether the power of ten multiplies or divides. -/
theorem isFinite_ofDecimal (m : Nat) (e : Int) :
    (ofDecimal m e).isFinite ↔ (m : ℚ) * (10 : ℚ) ^ e < 2 ^ 1024 - 2 ^ 970 := by
  have hten : ((10 : Nat) : ℚ) = 10 := by norm_num
  rw [← hten]
  cases e with
  | ofNat k =>
    rw [Int.ofNat_eq_natCast, mul_zpow_lt_limit_iff]
    exact isFinite_ofDecimal_natCast m k
  | negSucc k =>
    rw [Int.negSucc_eq, ← Int.natCast_succ, mul_zpow_neg_lt_limit_iff m (by omega)]
    exact isFinite_ofDecimal_neg m k

end Magnitude

end LabelQuery.Number
