import LabelQuery.Proofs.Number.Rounding
import Mathlib.Algebra.Order.Field.Rat
import Mathlib.Algebra.Order.Ring.Abs
import Mathlib.Tactic.NormNum

/-!
# Number — the nearest value

What it means that a value is the one nearest to a number, of two equally near the even one, said
without any way to find it. There is one such value only, and rounding finds it.

All numbers are counted in units here. A value has at most 53 significant bits. There is no greatest
one: overflow is decided after rounding.

* `IsValue`, `IsNearest` — the specification of rounding.
* `IsNearest.unique` — there is at most one nearest value.
* `isNearest_iff_eq_rounded` — it is the one that `rounded` finds.
* `isNearest_zero_iff` — zero is nearest to nothing greater than half a unit.
* `rounded_mul_two_pow`, `rounded_mul_right`, `rounded_add` — rounding of a multiple, of a fraction
  that is not in lowest terms, and of a value with too little added to it.
-/

namespace LabelQuery.Number

/-! ## Values -/

/-- A number of units that has at most 53 significant bits. -/
def IsValue (units : Nat) : Prop :=
  ∃ s k, s < 2 ^ 53 ∧ units = s * 2 ^ k

/-- A value whose last significant bit is zero. -/
def IsEvenValue (units : Nat) : Prop :=
  ∃ s k, 2 * s < 2 ^ 53 ∧ units = 2 * s * 2 ^ k

theorem isValue_zero : IsValue 0 :=
  ⟨0, 0, Nat.two_pow_pos 53, rfl⟩

/-- A power of two times a value is a value: the significant bits stay, and the place of the last
one moves. -/
theorem IsValue.mul_two_pow {units : Nat} (h : IsValue units) (i : Nat) : IsValue (units * 2 ^ i) := by
  obtain ⟨s, k, hs, rfl⟩ := h
  exact ⟨s, k + i, hs, by rw [Nat.mul_assoc, ← Nat.pow_add]⟩

/-- A value is a multiple of the step at it, which is the other way to say that it has at most 53
significant bits. -/
theorem IsValue.step_dvd {units : Nat} (h : IsValue units) : step units ∣ units := by
  obtain ⟨s, k, hs, rfl⟩ := h
  have hlt : s * 2 ^ k < 2 ^ (k + 52 + 1) := by
    rw [Nat.add_assoc, Nat.pow_add 2 k, Nat.mul_comm]
    exact Nat.mul_lt_mul_of_pos_left hs (Nat.two_pow_pos k)
  have hlog : (s * 2 ^ k).log2 - 52 ≤ k := by
    have hle := log2_le_of_lt hlt
    omega
  exact (Nat.pow_dvd_pow 2 hlog).trans (Nat.dvd_mul_left _ s)

/-- **A value is left as it is.** -/
theorem IsValue.rounded_eq {units : Nat} (h : IsValue units) : rounded units 1 = units :=
  rounded_of_step_dvd h.step_dvd

/-! ## Nearest values -/

/-- The value nearest to a number of units; of two equally near, the even one. -/
structure IsNearest (q : ℚ) (units : Nat) : Prop where
  isValue : IsValue units
  le_abs : ∀ v, IsValue v → |q - units| ≤ |q - v|
  even_of_tie : ∀ v, IsValue v → v ≠ units → |q - v| = |q - units| → IsEvenValue units

/-- Between two even values there is another value. Of the two, the one with the shorter step has a
neighbour on the side of the other, and the other is further away than this neighbour because it is
even. -/
theorem exists_isValue_between {u v : Nat} (hu : IsEvenValue u) (hv : IsEvenValue v) (h : u < v) :
    ∃ w, IsValue w ∧ u < w ∧ w < v := by
  obtain ⟨s, k, hs, rfl⟩ := hu
  obtain ⟨t, l, ht, rfl⟩ := hv
  -- the one with the shorter step has a neighbour on the side of the other
  rcases Nat.le_total k l with hkl | hlk
  · obtain ⟨i, rfl⟩ := Nat.exists_eq_add_of_le hkl
    refine ⟨(2 * s + 1) * 2 ^ k, ⟨2 * s + 1, k, by omega, rfl⟩, ?_, ?_⟩
    · exact Nat.mul_lt_mul_of_pos_right (by omega) (Nat.two_pow_pos k)
    · have hassoc : 2 * t * 2 ^ (k + i) = 2 * (t * 2 ^ i) * 2 ^ k := by
        rw [Nat.pow_add]
        ring
      rw [hassoc] at h ⊢
      have hlt := Nat.lt_of_mul_lt_mul_right h
      exact Nat.mul_lt_mul_of_pos_right (by omega) (Nat.two_pow_pos k)
  · obtain ⟨i, rfl⟩ := Nat.exists_eq_add_of_le hlk
    have hassoc : 2 * s * 2 ^ (l + i) = 2 * (s * 2 ^ i) * 2 ^ l := by
      rw [Nat.pow_add]
      ring
    rw [hassoc] at h ⊢
    have hlt := Nat.lt_of_mul_lt_mul_right h
    refine ⟨(2 * t - 1) * 2 ^ l, ⟨2 * t - 1, l, by omega, rfl⟩, ?_, ?_⟩
    · exact Nat.mul_lt_mul_of_pos_right (by omega) (Nat.two_pow_pos l)
    · exact Nat.mul_lt_mul_of_pos_right (by omega) (Nat.two_pow_pos l)

/-- Two numbers equally near do not have a nearer one between them. Both would be even by the rule
for ties, and then a third value lies between them, which is nearer than one of them. -/
theorem IsNearest.not_lt {q : ℚ} {u v : Nat} (hu : IsNearest q u) (hv : IsNearest q v) : ¬ u < v := by
  intro hlt
  have htie : |q - u| = |q - v| := le_antisymm (hu.le_abs v hv.isValue) (hv.le_abs u hu.isValue)
  obtain ⟨w, hw, huw, hwv⟩ := exists_isValue_between (hu.even_of_tie v hv.isValue hlt.ne' htie.symm)
    (hv.even_of_tie u hu.isValue hlt.ne htie) hlt
  -- `w` would have to be as far away as `u`, which the order of the three numbers rules out
  have hle := hu.le_abs w hw
  have huw' : (u : ℚ) < w := Nat.cast_lt.2 huw
  have hwv' : (w : ℚ) < v := Nat.cast_lt.2 hwv
  rcases abs_cases (q - u) with ⟨h₁, -⟩ | ⟨h₁, -⟩
  · rcases abs_cases (q - v) with ⟨h₂, -⟩ | ⟨h₂, -⟩
    · linarith
    · rcases abs_cases (q - w) with ⟨h₃, -⟩ | ⟨h₃, -⟩ <;> linarith
  · linarith [neg_abs_le (q - v)]

/-- **There is at most one nearest value.** -/
theorem IsNearest.unique {q : ℚ} {u v : Nat} (hu : IsNearest q u) (hv : IsNearest q v) : u = v :=
  Nat.le_antisymm (Nat.le_of_not_lt (hv.not_lt hu)) (Nat.le_of_not_lt (hu.not_lt hv))

/-! ## Rounding finds it -/

/-- A quotient is rounded to a multiple of the divisor half a divisor away at most, and by exactly
that much only to an even one. Stated without subtraction, for natural numbers. -/
theorem roundDiv_close {num den : Nat} (hden : 0 < den) :
    2 * num ≤ 2 * (roundDiv num den * den) + den ∧ 2 * (roundDiv num den * den) ≤ 2 * num + den ∧
      (2 * num = 2 * (roundDiv num den * den) + den ∨ 2 * (roundDiv num den * den) = 2 * num + den →
        roundDiv num den % 2 = 0) := by
  have hdiv : num / den * den + num % den = num := Nat.div_add_mod' num den
  have hmod : num % den < den := Nat.mod_lt num hden
  have hsucc : (num / den + 1) * den = num / den * den + den := Nat.succ_mul _ _
  unfold roundDiv
  split
  · -- rounded down
    refine ⟨by omega, by omega, ?_⟩
    rintro (htie | htie) <;> omega
  · -- rounded up
    rw [hsucc]
    refine ⟨by omega, by omega, ?_⟩
    rintro (htie | htie) <;> omega

/-- The first two parts of `roundDiv_close` as a distance between rational numbers. -/
theorem two_mul_abs_sub_roundDiv_le {num den : Nat} (hden : 0 < den) :
    2 * |(num : ℚ) - (roundDiv num den * den : Nat)| ≤ den := by
  obtain ⟨habove, hbelow, -⟩ := @roundDiv_close num den hden
  have habove' : (2 : ℚ) * num ≤ 2 * (roundDiv num den * den : Nat) + den := by exact_mod_cast habove
  have hbelow' : (2 : ℚ) * (roundDiv num den * den : Nat) ≤ 2 * num + den := by exact_mod_cast hbelow
  rcases abs_cases ((num : ℚ) - (roundDiv num den * den : Nat)) with ⟨h, -⟩ | ⟨h, -⟩
  · linarith
  · linarith

/-- The third part of `roundDiv_close` as a distance between rational numbers: at half a divisor the
rounded number is even. -/
theorem roundDiv_even_of_tie {num den : Nat} (hden : 0 < den)
    (h : 2 * |(num : ℚ) - (roundDiv num den * den : Nat)| = den) : roundDiv num den % 2 = 0 := by
  obtain ⟨-, -, heven⟩ := @roundDiv_close num den hden
  apply heven
  rcases abs_cases ((num : ℚ) - (roundDiv num den * den : Nat)) with ⟨habs, -⟩ | ⟨habs, -⟩
  · left
    have htie : (2 : ℚ) * num = 2 * (roundDiv num den * den : Nat) + den := by linarith
    exact_mod_cast htie
  · right
    have htie : (2 : ℚ) * (roundDiv num den * den : Nat) = 2 * num + den := by linarith
    exact_mod_cast htie

/-- What is at least a step away from a value at most half a step away is no nearer, and as near
only if both are half a step away. The triangle inequality in the form that the comparison of
multiples needs. -/
theorem abs_sub_le_of_le_abs_sub {q a b d : ℚ} (ha : 2 * |q - a| ≤ d) (hab : d ≤ |a - b|) :
    |q - a| ≤ |q - b| ∧ (|q - b| = |q - a| → 2 * |q - a| = d) := by
  have htriangle : |a - b| ≤ |q - a| + |q - b| := by
    rw [abs_sub_comm q a]
    exact abs_sub_le a q b
  constructor
  · linarith
  · intro htie
    linarith

/-- Among the multiples of the divisor, the rounded one is nearest: any other is at least a divisor
away from it, and it is half a divisor at most away from the quotient. -/
theorem roundDiv_nearest {num den : Nat} (hden : 0 < den) {w : Nat} (hw : w ≠ roundDiv num den) :
    |(num : ℚ) - (roundDiv num den * den : Nat)| ≤ |(num : ℚ) - (w * den : Nat)| ∧
      (|(num : ℚ) - (w * den : Nat)| = |(num : ℚ) - (roundDiv num den * den : Nat)| →
        roundDiv num den % 2 = 0) := by
  have hapart : (den : ℚ) ≤ |((roundDiv num den * den : Nat) : ℚ) - (w * den : Nat)| := by
    -- two different whole numbers are at least one apart
    have hone : (1 : ℚ) ≤ |(roundDiv num den : ℚ) - w| := by
      have hint : (1 : ℤ) ≤ |(roundDiv num den : ℤ) - w| := Int.one_le_abs (by omega)
      exact_mod_cast hint
    push_cast
    rw [← sub_mul, abs_mul, Nat.abs_cast]
    exact le_mul_of_one_le_left (Nat.cast_nonneg den) hone
  obtain ⟨hle, htie⟩ := abs_sub_le_of_le_abs_sub (two_mul_abs_sub_roundDiv_le hden) hapart
  exact ⟨hle, fun h => roundDiv_even_of_tie hden (htie h)⟩

/-- A value is a multiple of the step at a number, or it lies below the number and below a multiple
of that step that does too. So the multiples of the step are the only values to be compared with. -/
theorem IsValue.multiple_or_lt {v : Nat} (hv : IsValue v) (n : Nat) :
    (∃ w, v = w * step n) ∨ v < 2 ^ 52 * step n ∧ 2 ^ 52 * step n ≤ n := by
  obtain ⟨s, k, hs, rfl⟩ := hv
  rcases Nat.lt_or_ge k (n.log2 - 52) with hlt | hge
  · -- the value has fewer bits than the number by the length of a step
    right
    obtain ⟨i, hi⟩ : ∃ i, n.log2 = k + i + 53 := ⟨n.log2 - k - 53, by omega⟩
    have hstep : step n = 2 ^ (k + i + 1) := step_of_log2_eq hi
    have hn : n ≠ 0 := by
      rintro rfl
      rw [Nat.log2_zero] at hi
      omega
    have hself := Nat.log2_self_le hn
    rw [hi, Nat.pow_add 2 (k + i) 53] at hself
    rw [hstep, Nat.pow_succ 2 (k + i), Nat.pow_add 2 k i]
    rw [Nat.pow_add 2 k i] at hself
    have hle : 2 ^ k ≤ 2 ^ k * 2 ^ i := Nat.le_mul_of_pos_right _ (Nat.two_pow_pos i)
    have hlt : s * 2 ^ k < 2 ^ 53 * 2 ^ k := Nat.mul_lt_mul_of_pos_right hs (Nat.two_pow_pos k)
    omega
  · -- the last bit of the value is not below that of a step
    left
    obtain ⟨i, hi⟩ := Nat.exists_eq_add_of_le hge
    refine ⟨s * 2 ^ i, ?_⟩
    rw [Nat.mul_assoc]
    show s * 2 ^ k = s * (2 ^ i * 2 ^ (n.log2 - 52))
    rw [hi, Nat.pow_add 2 _ i, Nat.mul_comm (2 ^ i)]

/-- Rounding a whole number of units, in steps of the number itself. -/
theorem rounded_one_eq (n : Nat) : rounded n 1 = roundDiv n (step n) * step n := by
  unfold rounded
  rw [Nat.div_one, Nat.one_mul]

/-- A number is at most `2 ^ 53` of its own steps, also after rounding. -/
theorem roundDiv_step_le (n : Nat) : roundDiv n (step n) ≤ 2 ^ 53 := by
  have hlt : n < 2 ^ 53 * step n := by
    calc n < 2 ^ (n.log2 + 1) := Nat.lt_log2_self
      _ ≤ 2 ^ (53 + (n.log2 - 52)) := Nat.pow_le_pow_right Nat.two_pos (by omega)
      _ = 2 ^ 53 * step n := Nat.pow_add 2 53 _
  have hdiv : n / step n < 2 ^ 53 := (Nat.div_lt_iff_lt_mul (step_pos n)).2 hlt
  have hup := roundDiv_le_div_add_one n (step n)
  omega

/-- Up to `2 ^ 53` of them, multiples of a power of two are values; one more bit is no obstacle at the
end, because it is the only one. -/
theorem isValue_of_le {t k : Nat} (ht : t ≤ 2 ^ 53) : IsValue (t * 2 ^ k) := by
  rcases Nat.lt_or_eq_of_le ht with hlt | rfl
  · exact ⟨t, k, hlt, rfl⟩
  · exact ⟨1, 53 + k, by omega, by rw [Nat.one_mul, Nat.pow_add 2 53 k]⟩

/-- Up to `2 ^ 53`, an even multiple of a power of two is an even value. -/
theorem isEvenValue_of_le {t k : Nat} (ht : t ≤ 2 ^ 53) (heven : t % 2 = 0) :
    IsEvenValue (t * 2 ^ k) := by
  obtain ⟨s, rfl⟩ : ∃ s, t = 2 * s := ⟨t / 2, by omega⟩
  rcases Nat.lt_or_eq_of_le ht with hlt | heq
  · exact ⟨s, k, hlt, rfl⟩
  · refine ⟨1, 52 + k, by omega, ?_⟩
    rw [heq, Nat.pow_add 2 52 k]
    omega

/-- **Rounding finds the nearest value.** Values with a shorter step than the number has lie below
it, and the first multiple of its step above them is nearer than they are. -/
theorem isNearest_rounded (n : Nat) : IsNearest n (rounded n 1) := by
  have hsteps := roundDiv_step_le n
  rw [rounded_one_eq]
  -- a value other than the rounded one is no nearer, and as near only in a tie
  have hcases : ∀ v, IsValue v → v ≠ roundDiv n (step n) * step n →
      |(n : ℚ) - (roundDiv n (step n) * step n : Nat)| ≤ |(n : ℚ) - v| ∧
        (|(n : ℚ) - v| = |(n : ℚ) - (roundDiv n (step n) * step n : Nat)| →
          roundDiv n (step n) % 2 = 0) := by
    intro v hv hne
    rcases hv.multiple_or_lt n with ⟨w, rfl⟩ | ⟨hlt, hle⟩
    · apply roundDiv_nearest (step_pos n)
      rintro rfl
      exact hne rfl
    · -- the value has a shorter step: the first multiple above it is nearer to the number
      have hfar : |(n : ℚ) - (2 ^ 52 * step n : Nat)| < |(n : ℚ) - v| := by
        have hlt' : (v : ℚ) < (2 ^ 52 * step n : Nat) := Nat.cast_lt.2 hlt
        have hle' : ((2 ^ 52 * step n : Nat) : ℚ) ≤ n := Nat.cast_le.2 hle
        rw [abs_of_nonneg (by linarith), abs_of_nonneg (by linarith)]
        linarith
      have hnear : |(n : ℚ) - (roundDiv n (step n) * step n : Nat)| ≤
          |(n : ℚ) - (2 ^ 52 * step n : Nat)| := by
        by_cases heq : 2 ^ 52 = roundDiv n (step n)
        · rw [heq]
        · exact (roundDiv_nearest (step_pos n) heq).1
      exact ⟨hnear.trans hfar.le, fun htie => absurd htie (hnear.trans_lt hfar).ne'⟩
  refine ⟨isValue_of_le hsteps, ?_, ?_⟩
  · intro v hv
    by_cases heq : v = roundDiv n (step n) * step n
    · rw [heq]
    · exact (hcases v hv heq).1
  · intro v hv hne htie
    exact isEvenValue_of_le hsteps ((hcases v hv hne).2 htie)

/-- **The nearest value is the one that rounding finds**: rounding finds one, and there is no
other. -/
theorem isNearest_iff_eq_rounded {n units : Nat} : IsNearest n units ↔ units = rounded n 1 := by
  constructor
  · intro h
    exact h.unique (isNearest_rounded n)
  · rintro rfl
    exact isNearest_rounded n

/-! ## Values that are not nearest -/

/-- Zero is nearest to nothing greater than half a unit. The value to compare with is one unit; the
tie goes to zero, which is even. -/
theorem isNearest_zero_iff {q : ℚ} (hq : 0 ≤ q) : IsNearest q 0 ↔ 2 * q ≤ 1 := by
  constructor
  · intro h
    -- one unit is no nearer than zero
    have hle := h.le_abs 1 ⟨1, 0, by omega, rfl⟩
    rw [Nat.cast_zero, sub_zero, abs_of_nonneg hq, Nat.cast_one] at hle
    rcases abs_cases (q - 1) with ⟨habs, -⟩ | ⟨habs, -⟩ <;> linarith
  · intro h
    refine ⟨isValue_zero, ?_, fun _ _ _ _ => ⟨0, 0, by omega, rfl⟩⟩
    intro v _
    rcases Nat.eq_zero_or_pos v with rfl | hpos
    · exact le_refl _
    · have hone : (1 : ℚ) ≤ v := Nat.one_le_cast.2 hpos
      rw [Nat.cast_zero, sub_zero, abs_of_nonneg hq]
      linarith [neg_abs_le (q - v)]

/-- A value much less than the number has its double, which is nearer. -/
theorem IsNearest.two_mul_le {q : ℚ} {units : Nat} (h : IsNearest q units) (hpos : 0 < units) :
    2 * q ≤ 3 * units := by
  have hpos' : (0 : ℚ) < units := Nat.cast_pos.2 hpos
  have hle := h.le_abs (units * 2) (h.isValue.mul_two_pow 1)
  push_cast at hle
  rcases abs_cases (q - units) with ⟨h₁, -⟩ | ⟨-, hlt⟩
  · rcases abs_cases (q - units * 2) with ⟨h₂, -⟩ | ⟨h₂, -⟩ <;> linarith
  · linarith

/-- A value much greater than the number has its half, which is nearer. -/
theorem IsNearest.three_mul_le {q : ℚ} {units : Nat} (h : IsNearest q (units * 2))
    (hunits : IsValue units) (hpos : 0 < units) : 3 * (units : ℚ) ≤ 2 * q := by
  have hpos' : (0 : ℚ) < units := Nat.cast_pos.2 hpos
  have hle := h.le_abs units hunits
  push_cast at hle
  rcases abs_cases (q - units * 2) with ⟨-, hge⟩ | ⟨h₁, -⟩
  · linarith
  · rcases abs_cases (q - units) with ⟨h₂, -⟩ | ⟨h₂, -⟩ <;> linarith

/-! ## Rounding and powers of two -/

/-- A common factor of both sides of a quotient does not change what it is rounded to. -/
theorem roundDiv_mul_right {num den c : Nat} (hc : 0 < c) :
    roundDiv (num * c) (den * c) = roundDiv num den := by
  have hlt : 2 * (num % den * c) < den * c ↔ 2 * (num % den) < den := by
    rw [← Nat.mul_assoc]
    exact Nat.mul_lt_mul_right hc
  have heq : 2 * (num % den * c) = den * c ↔ 2 * (num % den) = den := by
    rw [← Nat.mul_assoc]
    exact Nat.mul_right_cancel_iff hc
  unfold roundDiv
  simp only [Nat.mul_mod_mul_right, Nat.mul_div_mul_right num den hc, hlt, heq]

/-- Only the quotient matters: a fraction need not be in lowest terms. -/
theorem rounded_mul_right {num den c : Nat} (hc : 0 < c) :
    rounded (num * c) (den * c) = rounded num den := by
  unfold rounded
  rw [Nat.mul_div_mul_right num den hc, Nat.mul_right_comm den c, roundDiv_mul_right hc]

/-- A power of two moves the leading bit by its exponent. -/
theorem log2_mul_two_pow {n : Nat} (hn : n ≠ 0) (i : Nat) : (n * 2 ^ i).log2 = n.log2 + i := by
  have hne : n * 2 ^ i ≠ 0 := Nat.mul_ne_zero hn (Nat.two_pow_pos i).ne'
  rw [Nat.log2_eq_iff hne]
  constructor
  · rw [Nat.pow_add]
    exact Nat.mul_le_mul_right _ (Nat.log2_self_le hn)
  · rw [Nat.add_right_comm, Nat.pow_add 2 _ i]
    exact Nat.mul_lt_mul_of_pos_right Nat.lt_log2_self (Nat.two_pow_pos i)

/-- From `2 ^ 52` on, steps grow with the numbers. -/
theorem step_mul_two_pow {n : Nat} (hn : 2 ^ 52 ≤ n) (i : Nat) :
    step (n * 2 ^ i) = step n * 2 ^ i := by
  have hne : n ≠ 0 := by omega
  have hlog : 52 ≤ n.log2 := le_log2_of_le hn
  show 2 ^ ((n * 2 ^ i).log2 - 52) = 2 ^ (n.log2 - 52) * 2 ^ i
  rw [log2_mul_two_pow hne, Nat.sub_add_comm hlog, Nat.pow_add]

/-- A power of two comes through rounding. Below `2 ^ 52` nothing is rounded on either side, and
from there on the steps grow with the numbers. -/
theorem rounded_mul_two_pow (n i : Nat) : rounded (n * 2 ^ i) 1 = rounded n 1 * 2 ^ i := by
  rcases Nat.lt_or_ge n (2 ^ 52) with hlt | hge
  · have hvalue : IsValue n := ⟨n, 0, by omega, by omega⟩
    rw [(hvalue.mul_two_pow i).rounded_eq, hvalue.rounded_eq]
  · -- quotients by steps that have grown by the same factor
    rw [rounded_one_eq, rounded_one_eq, step_mul_two_pow hge, ← Nat.mul_assoc,
      roundDiv_mul_right (Nat.two_pow_pos i)]

/-- What is less than half a step is lost: the sum has the steps of the value, and is rounded down
to it. -/
theorem rounded_add {n d : Nat} (hn : step n ∣ n) (hne : n ≠ 0) (hd : 2 * d < step n) :
    rounded (n + d) 1 = n := by
  -- the next value is still below the next power of two, or at it
  have hnext : n + step n ≤ 2 ^ (n.log2 + 1) := by
    have hlt : n < 2 ^ (n.log2 + 1) := Nat.lt_log2_self
    have hdvd : step n ∣ 2 ^ (n.log2 + 1) - n := Nat.dvd_sub (Nat.pow_dvd_pow 2 (by omega)) hn
    have hle := Nat.le_of_dvd (by omega) hdvd
    omega
  -- so the sum has as many bits as the value
  have hlog : (n + d).log2 = n.log2 := by
    have hself := Nat.log2_self_le hne
    exact (Nat.log2_eq_iff (by omega)).2 ⟨by omega, by omega⟩
  have hstep : step (n + d) = step n := by
    unfold step
    rw [hlog]
  have hmod : (n + d) % step n = d := by
    rw [Nat.add_mod, Nat.mod_eq_zero_of_dvd hn, Nat.zero_add, Nat.mod_mod]
    exact Nat.mod_eq_of_lt (by omega)
  have hround : roundDiv (n + d) (step n) = (n + d) / step n := by
    unfold roundDiv
    rw [hmod]
    exact if_pos (.inl hd)
  have hdiv := Nat.div_add_mod' (n + d) (step n)
  rw [rounded_one_eq, hstep, hround]
  omega

end LabelQuery.Number
