import LabelQuery.Number.Binary64
import Mathlib.Tactic.Linarith
import Mathlib.Tactic.Ring

/-!
# Number — rounding never crosses a midpoint

Between the greatest value below a power of two and that power lies a midpoint, and because the value
below it is odd, the midpoint itself is rounded up. So rounding, whatever it does to a number, leaves
it on its side of every such midpoint. The last of them decides about overflow.

* `roundDiv_le_iff` — the nearest whole number to a quotient, of two equally near the even one.
* `midpoint k` — half a step below `2 ^ (k + 54)` units; `topPlace` is the place of the last one.
* `rounded_of_lt`, `rounded_of_le` — rounding on both sides of a midpoint.
* `Magnitude.isFinite_nearest` — a rounded quotient is finite exactly below the last midpoint.
-/

namespace LabelQuery.Number

/-! ## Rounding a quotient to a whole number -/

/-- A quotient is rounded to at most `n` if it lies below `n + 1 / 2`, or at it and `n` is even. The
quotient is written as a whole part and a remainder, and the whole part is compared with `n`. -/
theorem roundDiv_le_iff {num den : Nat} (hden : 0 < den) (n : Nat) :
    roundDiv num den ≤ n ↔
      2 * num < (2 * n + 1) * den ∨ 2 * num = (2 * n + 1) * den ∧ n % 2 = 0 := by
  have hdiv : den * (num / den) + num % den = num := Nat.div_add_mod num den
  have hmod : num % den < den := Nat.mod_lt num hden
  unfold roundDiv
  generalize num / den = q at *
  generalize num % den = r at *
  subst hdiv
  -- only where the whole part is `n` itself does the remainder matter
  rcases Nat.lt_trichotomy q n with hlt | rfl | hgt
  · -- below `n`: rounding up by one does not pass it
    obtain ⟨t, rfl⟩ := Nat.exists_eq_add_of_lt hlt
    have hprod : 2 * (den * q + r) < (2 * (q + t + 1) + 1) * den := by nlinarith
    simp only [hprod, true_or, iff_true]
    split <;> omega
  · have hprod : (2 * q + 1) * den = 2 * (den * q) + den := by ring
    rw [hprod]
    split <;> omega
  · -- above `n`: rounding down does not come back to it
    obtain ⟨t, rfl⟩ := Nat.exists_eq_add_of_lt hgt
    have hprod : (2 * n + 1) * den < 2 * (den * (n + t + 1) + r) := by nlinarith
    split <;> omega

theorem div_le_roundDiv (num den : Nat) : num / den ≤ roundDiv num den := by
  unfold roundDiv
  split <;> omega

theorem roundDiv_le_div_add_one (num den : Nat) : roundDiv num den ≤ num / den + 1 := by
  unfold roundDiv
  split <;> omega

/-! ## Steps -/

theorem log2_le_of_lt {n k : Nat} (h : n < 2 ^ (k + 1)) : n.log2 ≤ k := by
  rcases Nat.eq_zero_or_pos n with rfl | hpos
  · rw [Nat.log2_zero]
    exact Nat.zero_le k
  · exact Nat.le_of_lt_succ ((Nat.log2_lt hpos.ne').2 h)

theorem le_log2_of_le {n k : Nat} (h : 2 ^ k ≤ n) : k ≤ n.log2 :=
  (Nat.le_log2 ((Nat.two_pow_pos k).trans_le h).ne').2 h

theorem step_pos (units : Nat) : 0 < step units :=
  Nat.two_pow_pos _

theorem step_of_log2_le {units k : Nat} (h : units.log2 ≤ k + 52) : step units ≤ 2 ^ k :=
  Nat.pow_le_pow_right Nat.two_pos (by omega)

theorem step_of_log2_eq {units k : Nat} (h : units.log2 = k + 52) : step units = 2 ^ k := by
  show 2 ^ (units.log2 - 52) = 2 ^ k
  rw [h, Nat.add_sub_cancel]

/-- The number of units that a quotient is rounded to, overflow apart. -/
def rounded (num den : Nat) : Nat :=
  roundDiv num (den * step (num / den)) * step (num / den)

/-- Rounding to a magnitude is rounding to a number of units, and then a test for overflow. -/
theorem nearest_eq (num den : Nat) : Magnitude.nearest num den = .ofUnits (rounded num den) := rfl

/-- A number of units with at most 53 significant bits is left as it is: nothing remains when it is
divided by its step. -/
theorem rounded_of_step_dvd {units : Nat} (h : step units ∣ units) : rounded units 1 = units := by
  obtain ⟨t, ht⟩ := h
  have hdiv : units / step units = t := Nat.div_eq_of_eq_mul_right (step_pos units) ht
  have hmod : units % step units = 0 := Nat.mod_eq_zero_of_dvd ⟨t, ht⟩
  have hround : roundDiv units (step units) = t := by
    unfold roundDiv
    rw [hmod, hdiv, if_pos (.inl (step_pos units))]
  unfold rounded
  rw [Nat.div_one, Nat.one_mul, hround, Nat.mul_comm]
  exact ht.symm

/-- Rounding goes up by no more than a step. This bounds what happens below a midpoint, where the
exact place of the number does not matter. -/
theorem rounded_le_add_step (num den : Nat) :
    rounded num den ≤ num / den + step (num / den) := by
  have hup := roundDiv_le_div_add_one num (den * step (num / den))
  rw [← Nat.div_div_eq_div_mul] at hup
  calc rounded num den
      ≤ (num / den / step (num / den) + 1) * step (num / den) := Nat.mul_le_mul_right _ hup
    _ = num / den / step (num / den) * step (num / den) + step (num / den) := by
      rw [Nat.add_mul, Nat.one_mul]
    _ ≤ num / den + step (num / den) := Nat.add_le_add_right (Nat.div_mul_le_self _ _) _

/-- Rounding does not go below a power of two: a number that has reached it has a whole number of
steps at it. -/
theorem two_pow_le_rounded {num den j : Nat} (hlog : (num / den).log2 = j + 52) :
    2 ^ (j + 52) ≤ rounded num den := by
  have hpos : num / den ≠ 0 := by
    intro hzero
    rw [hzero, Nat.log2_zero] at hlog
    omega
  -- the leading bit alone is a whole number of steps
  have hself : 2 ^ 52 * 2 ^ j ≤ num / den := by
    rw [← Nat.pow_add 2 52 j, Nat.add_comm 52 j, ← hlog]
    exact Nat.log2_self_le hpos
  have hdown := div_le_roundDiv num (den * 2 ^ j)
  rw [← Nat.div_div_eq_div_mul] at hdown
  unfold rounded
  rw [step_of_log2_eq hlog]
  calc 2 ^ (j + 52) = 2 ^ 52 * 2 ^ j := by rw [Nat.add_comm j 52, Nat.pow_add 2 52 j]
    _ ≤ num / den / 2 ^ j * 2 ^ j :=
      Nat.mul_le_mul_right _ ((Nat.le_div_iff_mul_le (Nat.two_pow_pos j)).2 hself)
    _ ≤ roundDiv num (den * 2 ^ j) * 2 ^ j := Nat.mul_le_mul_right _ hdown

/-! ## Midpoints -/

/-- The number of units half a step below `2 ^ (k + 54)`, where steps are `2 ^ (k + 1)` long. -/
def midpoint (k : Nat) : Nat :=
  (2 ^ 54 - 1) * 2 ^ k

/-- Half a step, `2 ^ k`, is what a midpoint lacks of the power of two after it. -/
theorem midpoint_add (k : Nat) : midpoint k + 2 ^ k = 2 ^ (k + 54) := by
  unfold midpoint
  rw [Nat.pow_add 2 k 54]
  omega

theorem midpoint_lt (k : Nat) : midpoint k < 2 ^ (k + 54) := by
  have hpos := Nat.two_pow_pos k
  have hsum := midpoint_add k
  omega

/-- A midpoint lies in the upper half below its power of two. -/
theorem two_pow_le_midpoint (k : Nat) : 2 ^ (k + 53) ≤ midpoint k := by
  unfold midpoint
  rw [Nat.pow_add 2 k 53]
  omega

theorem midpoint_pos (k : Nat) : 0 < midpoint k :=
  (Nat.two_pow_pos (k + 53)).trans_le (two_pow_le_midpoint k)

/-- Doubling moves midpoints to midpoints, which is why scaling by a power of two keeps a number on
its side of them. -/
theorem midpoint_mul_two_pow (k e : Nat) : midpoint k * 2 ^ e = midpoint (k + e) := by
  rw [midpoint, midpoint, Nat.mul_assoc, ← Nat.pow_add]

/-- In steps of `2 ^ (k + 1)` a midpoint comes half a step after an odd number of them. -/
theorem two_mul_midpoint_mul (k den : Nat) :
    2 * (midpoint k * den) = (2 * (2 ^ 53 - 1) + 1) * (den * 2 ^ (k + 1)) := by
  rw [midpoint, Nat.pow_succ 2 k]
  ring

/-- Steps of `2 ^ (k + 1)` around a midpoint. The tie at it goes up, because the number of steps
below it is odd. -/
theorem roundDiv_le_iff_lt_midpoint {num den : Nat} (hden : 0 < den) (k : Nat) :
    roundDiv num (den * 2 ^ (k + 1)) ≤ 2 ^ 53 - 1 ↔ num < midpoint k * den := by
  rw [roundDiv_le_iff (Nat.mul_pos hden (Nat.two_pow_pos _)), ← two_mul_midpoint_mul]
  omega

/-- A quotient below a midpoint is rounded to at most the last value before it. Where the steps are
as long as they are at the midpoint, the rule for ties decides; where they are shorter, one step up
does not reach it. -/
theorem rounded_of_lt {num den k : Nat} (hden : 0 < den) (h : num < midpoint k * den) :
    rounded num den + 2 ^ (k + 1) ≤ 2 ^ (k + 54) := by
  have hquot : num / den < 2 ^ (k + 54) := by
    rw [Nat.div_lt_iff_lt_mul hden]
    exact h.trans_le (Nat.mul_le_mul_right den (midpoint_lt k).le)
  have hlog : (num / den).log2 ≤ k + 53 := log2_le_of_lt hquot
  rw [Nat.pow_add 2 k 54, Nat.pow_add 2 k 1]
  rcases Nat.lt_or_eq_of_le hlog with hsmall | htop
  · -- with shorter steps, rounding up by one of them does not come near
    have hstep : step (num / den) ≤ 2 ^ k := step_of_log2_le (by omega)
    have hup := rounded_le_add_step num den
    have hbelow : num / den < 2 ^ (k + 53) :=
      Nat.lt_log2_self.trans_le (Nat.pow_le_pow_right Nat.two_pos hsmall)
    rw [Nat.pow_add 2 k 53] at hbelow
    omega
  · -- the steps are those at the midpoint, and the number of them is at most `2 ^ 53 - 1`
    have hstep : step (num / den) = 2 ^ (k + 1) := step_of_log2_eq (by omega)
    have hround := Nat.mul_le_mul_right (2 ^ (k + 1)) ((roundDiv_le_iff_lt_midpoint hden k).2 h)
    unfold rounded
    rw [hstep]
    rw [Nat.pow_add 2 k 1] at hround ⊢
    omega

/-- A quotient from a midpoint on is rounded to at least the power of two after it. The two cases
are those of `rounded_of_lt`: steps as long as at the midpoint, and longer ones. -/
theorem rounded_of_le {num den k : Nat} (hden : 0 < den) (h : midpoint k * den ≤ num) :
    2 ^ (k + 54) ≤ rounded num den := by
  have hpow : 2 ^ (k + 53) ≤ num / den :=
    (two_pow_le_midpoint k).trans ((Nat.le_div_iff_mul_le hden).2 h)
  have hlog : k + 53 ≤ (num / den).log2 := le_log2_of_le hpow
  rcases Nat.lt_or_eq_of_le hlog with hlarge | htop
  · -- the quotient has reached the power of two, and rounding down does not leave it
    obtain ⟨j, hj⟩ : ∃ j, (num / den).log2 = j + 52 := ⟨(num / den).log2 - 52, by omega⟩
    calc 2 ^ (k + 54) ≤ 2 ^ (j + 52) := Nat.pow_le_pow_right Nat.two_pos (by omega)
      _ ≤ rounded num den := two_pow_le_rounded hj
  · -- the steps are those at the midpoint, and the tie at it goes up
    have hstep : step (num / den) = 2 ^ (k + 1) := step_of_log2_eq (by omega)
    have hup : ¬ roundDiv num (den * 2 ^ (k + 1)) ≤ 2 ^ 53 - 1 :=
      fun hle => absurd ((roundDiv_le_iff_lt_midpoint hden k).1 hle) (not_lt.2 h)
    have hround := Nat.mul_le_mul_right (2 ^ (k + 1)) (Nat.lt_of_not_le hup)
    unfold rounded
    rw [hstep]
    rw [Nat.pow_add 2 k 1] at hround ⊢
    rw [Nat.pow_add 2 k 54]
    omega

/-! ## Overflow -/

/-- The place of the midpoint from which on rounding overflows. -/
def topPlace : Nat := 2044

/-- The first number that is out of range is the power of two after the last midpoint. -/
theorem overflow_eq : overflow = 2 ^ (topPlace + 54) := by
  have hplace : 2098 = topPlace + 54 := rfl
  unfold overflow
  rw [hplace, Nat.pow_eq]

namespace Magnitude

/-- A number of units is finite exactly if it is below the first power of two that is out of
range. -/
theorem isFinite_ofUnits (units : Nat) : (ofUnits units).isFinite ↔ units < overflow := by
  unfold ofUnits
  split
  · next h => simp [isFinite, h]
  · next h => simp [isFinite, h]

/-- A quotient below the last midpoint is rounded to a finite number of units. -/
theorem nearest_of_lt {num den : Nat} (hden : 0 < den) (h : num < midpoint topPlace * den) :
    nearest num den = .finite (rounded num den) := by
  have hround := rounded_of_lt hden h
  have hpos := Nat.two_pow_pos (topPlace + 1)
  rw [nearest_eq, ofUnits, overflow_eq]
  exact if_pos (by omega)

/-- **Overflow is decided by the last midpoint**: a rounded quotient is finite exactly if the quotient
itself lies below it. -/
theorem isFinite_nearest {num den : Nat} (hden : 0 < den) :
    (nearest num den).isFinite ↔ num < midpoint topPlace * den := by
  constructor
  · intro h
    rw [nearest_eq, isFinite_ofUnits, overflow_eq] at h
    -- from the midpoint on, rounding reaches the power of two that is out of range
    by_contra hle
    exact absurd (rounded_of_le hden (not_lt.1 hle)) (not_le.2 h)
  · intro h
    rw [nearest_of_lt hden h]
    rfl

end Magnitude

end LabelQuery.Number
