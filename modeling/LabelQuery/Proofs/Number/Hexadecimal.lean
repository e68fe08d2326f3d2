import LabelQuery.Number.Numeral
import LabelQuery.Proofs.Number.Nearest
import LabelQuery.Proofs.Number.Range
import LabelQuery.Proofs.Text.Word
import Mathlib.Data.List.Induction

/-!
# Number — hexadecimal digits taken in one after another

The mantissa of a hexadecimal numeral is rounded at each digit, so it need not be the value nearest to
the number that its digits write. But no rounding crosses a midpoint, and a digit that is appended
after the first loss is too small to make up for one. So mantissa and number lie on the same side of
every midpoint, and this is all that the range depends on.

* `Tracks units n` — the invariant: `units` is exact for `n` up to 53 bits, and lies on the same side
  of every midpoint.
* `Tracks.append` — one more digit keeps it.
* `tracks_hexMantissa` — so a whole mantissa has it.
* `isFinite_hexMagnitude` — a hexadecimal magnitude is in range exactly below the limit.
-/

namespace LabelQuery.Number

/-! ## Digits -/

/-- A hexadecimal digit is worth less than 16. The three classes of digits are ranges of numbers,
and `omega` bounds the value in each. -/
theorem digitValue_lt {c : Char} (h : isHex c) : digitValue c < 16 := by
  have hle : ∀ a b : Char, a ≤ b ↔ a.toNat ≤ b.toNat := fun a b => UInt32.le_iff_toNat_le
  simp only [isHex, Bool.or_eq_true, Bool.and_eq_true, decide_eq_true_eq, Text.isDigit_iff,
    hle, Char.reduceToNat] at h
  unfold digitValue
  simp only [Text.isDigit_iff, hle, Char.reduceToNat]
  split
  · omega
  · split <;> omega

/-- One more digit at the end multiplies the number by the base and adds the digit: the recursion
that inductions on digits follow. -/
theorem ofDigits_concat (base : Nat) (ds : List Char) (d : Char) :
    ofDigits base (ds ++ [d]) = base * ofDigits base ds + digitValue d := by
  simp [ofDigits]

/-- Digits that are worth less than the base write a number of at most as many places. Induction on
the digits, from the last one. -/
theorem ofDigits_lt {base : Nat} {ds : List Char} (h : ∀ d ∈ ds, digitValue d < base) :
    ofDigits base ds < base ^ ds.length := by
  induction ds using List.reverseRecOn with
  | nil => simp [ofDigits]
  | append_singleton ds d ih =>
    have hds := ih fun c hc => h c (List.mem_append_left _ hc)
    have hd := h d (List.mem_append_right _ List.mem_cons_self)
    rw [ofDigits_concat, List.length_append, List.length_singleton, Nat.pow_succ']
    nlinarith

/-- Fewer than 256 hexadecimal digits write a number in range. -/
theorem ofDigits_mul_one_lt {ds : List Char} (hds : ∀ d ∈ ds, isHex d) (hlen : ds.length < 256) :
    ofDigits 16 ds * one < midpoint topPlace := by
  calc ofDigits 16 ds * one < 16 ^ ds.length * one :=
        Nat.mul_lt_mul_of_pos_right (ofDigits_lt fun d hd => digitValue_lt (hds d hd)) one_pos
    _ = 2 ^ (4 * ds.length + onePlace) := by rw [one_eq, Nat.pow_add, Nat.pow_mul]
    _ ≤ 2 ^ (topPlace + 53) :=
      Nat.pow_le_pow_right Nat.two_pos (by unfold topPlace onePlace; omega)
    _ ≤ midpoint topPlace := two_pow_le_midpoint topPlace

/-- A whole number of at most 53 bits is a value, so that no rounding changes it. -/
theorem isValue_mul_one {n : Nat} (h : n < 2 ^ 53) : IsValue (n * one) :=
  ⟨n, onePlace, h, by rw [one_eq]⟩

/-- Midpoints of the size of whole numbers are whole numbers themselves, so a whole number below
such a midpoint leaves room for the next one. -/
theorem succ_mul_one_le_midpoint {n j : Nat} (h : n * one < midpoint (onePlace + j)) :
    (n + 1) * one ≤ midpoint (onePlace + j) := by
  have hwhole : midpoint (onePlace + j) = (2 ^ 54 - 1) * 2 ^ j * one := by
    rw [one_eq, midpoint, Nat.pow_add 2 onePlace j, Nat.mul_assoc, Nat.mul_comm (2 ^ j)]
  rw [hwhole] at h ⊢
  exact Nat.mul_le_mul_right one (Nat.lt_of_mul_lt_mul_right h)

/-! ## The same side of every midpoint -/

/-- `units` stands for `n`: it is `n` as long as `n` has at most 53 bits, and lies on the same side of
every midpoint, as far away from it as a value does. -/
structure Tracks (units n : Nat) : Prop where
  exact : n < 2 ^ 53 → units = n * one
  below : ∀ k, n * one < midpoint k → units + 2 ^ (k + 1) ≤ 2 ^ (k + 54)
  above : ∀ k, midpoint k ≤ n * one → 2 ^ (k + 54) ≤ units

namespace Tracks

variable {units n : Nat}

/-- No digits write zero, which stands for itself. -/
theorem zero : Tracks 0 0 where
  exact _ := (Nat.zero_mul one).symm
  below k _ := by
    rw [Nat.zero_add]
    exact Nat.pow_le_pow_right Nat.two_pos (by omega)
  above k hle := by
    rw [Nat.zero_mul] at hle
    exact absurd hle (not_le.2 (midpoint_pos k))

/-- **A number and what stands for it lie on the same side of every midpoint.** Beyond a midpoint is
at or beyond the power of two after it, and below one is below the last value before it. -/
theorem lt_midpoint_iff (h : Tracks units n) (k : Nat) :
    units < midpoint k ↔ n * one < midpoint k := by
  constructor
  · intro hlt
    by_contra hle
    have habove := h.above k (not_lt.1 hle)
    have hmid := midpoint_lt k
    omega
  · intro hlt
    have hbelow := h.below k hlt
    have hmid := midpoint_add k
    have hpos := Nat.two_pow_pos k
    rw [Nat.pow_succ 2 k] at hbelow
    omega

/-- Only zero stands for zero, because every other number is beyond the first midpoint. -/
theorem eq_zero_iff (h : Tracks units n) : units = 0 ↔ n = 0 := by
  constructor
  · rintro rfl
    have hlt := (h.lt_midpoint_iff 0).1 (midpoint_pos 0)
    have hone : midpoint 0 ≤ one := by
      rw [one_eq]
      exact (midpoint_lt 0).le.trans (Nat.pow_le_pow_right Nat.two_pos (by decide))
    -- another number is at least one, which is beyond the first midpoint
    by_contra hn
    have hle := Nat.le_mul_of_pos_left one (Nat.pos_of_ne_zero hn)
    omega
  · rintro rfl
    rw [h.exact (by omega), Nat.zero_mul]

/-- Where digits may get lost, there are at least as many units as the last exact number has. -/
theorem two_pow_mul_one_le (h : Tracks units n) (hn : 2 ^ 53 ≤ n) : 2 ^ 53 * one ≤ units := by
  obtain ⟨c, hplace⟩ : ∃ c, onePlace = c + 1 := ⟨1073, rfl⟩
  have hpow : 2 ^ 53 * one = 2 ^ (c + 54) := by
    rw [one_eq, hplace, Nat.mul_comm, ← Nat.pow_add 2 (c + 1) 53]
  have hle : 2 ^ 53 * one ≤ n * one := Nat.mul_le_mul_right one hn
  rw [hpow] at hle ⊢
  exact h.above c ((midpoint_lt c).le.trans hle)

/-- With one more digit, before the rounding, both are still on the same side of every midpoint.
While nothing is lost both are equal. After that, midpoints up to the size of sixteen times the last
exact number are passed by both, and for each of the others there is a midpoint a sixteenth as far
that decides. -/
theorem append_lt_midpoint_iff (h : Tracks units n) {d : Nat} (hd : d < 16) (k : Nat) :
    16 * units + d * one < midpoint k ↔ (16 * n + d) * one < midpoint k := by
  -- while nothing is lost, both are the same number of units
  by_cases hsmall : n < 2 ^ 53
  · rw [h.exact hsmall, ← Nat.mul_assoc, ← Nat.add_mul]
  rw [Nat.add_mul (16 * n) d one, Nat.mul_assoc 16 n one]
  have hn : 2 ^ 53 * one ≤ n * one := Nat.mul_le_mul_right one (not_lt.1 hsmall)
  have hunits : 2 ^ 53 * one ≤ units := h.two_pow_mul_one_le (not_lt.1 hsmall)
  rcases Nat.lt_or_ge k (onePlace + 4) with hk | hk
  · -- both have passed the midpoint before
    have hmid : midpoint k < 16 * (2 ^ 53 * one) := by
      calc midpoint k < 2 ^ (k + 54) := midpoint_lt k
        _ ≤ 2 ^ (onePlace + 57) := Nat.pow_le_pow_right Nat.two_pos (by omega)
        _ = 16 * (2 ^ 53 * one) := by
          rw [one_eq, Nat.pow_add 2 onePlace 57]
          omega
    omega
  · -- the midpoint that is sixteen times as near decides
    obtain ⟨j, rfl⟩ : ∃ j, k = onePlace + j + 4 := ⟨k - (onePlace + 4), by omega⟩
    have hmul : midpoint (onePlace + j) * 2 ^ 4 = midpoint (onePlace + j + 4) :=
      midpoint_mul_two_pow (onePlace + j) 4
    have hdigit : d * one ≤ 15 * one := Nat.mul_le_mul_right one (by omega)
    have hone : one ≤ 2 ^ (onePlace + j) := by
      rw [one_eq]
      exact Nat.pow_le_pow_right Nat.two_pos (Nat.le_add_right onePlace j)
    rw [← hmul]
    by_cases hlt : n * one < midpoint (onePlace + j)
    · -- below it there is room for one more digit, on either side
      have hbelow := h.below _ hlt
      have hnext := succ_mul_one_le_midpoint hlt
      have hmid := midpoint_add (onePlace + j)
      have hpos := one_pos
      rw [Nat.add_mul, Nat.one_mul] at hnext
      rw [Nat.pow_succ 2 (onePlace + j)] at hbelow
      omega
    · -- from the nearer midpoint on, both have passed this one
      have habove := h.above _ (not_lt.1 hlt)
      have hmid := midpoint_lt (onePlace + j)
      omega

/-- **One more digit**, taken in with a rounding, keeps the invariant. What is exact stays exact
because it is a value, and rounding itself does not cross midpoints. -/
theorem append (h : Tracks units n) {d : Nat} (hd : d < 16) :
    Tracks (rounded (16 * units + d * one) 1) (16 * n + d) where
  exact hsmall := by
    rw [h.exact (by omega), ← Nat.mul_assoc, ← Nat.add_mul]
    exact (isValue_mul_one hsmall).rounded_eq
  below k hlt := by
    apply rounded_of_lt Nat.one_pos
    rw [Nat.mul_one]
    exact (h.append_lt_midpoint_iff hd k).2 hlt
  above k hle := by
    apply rounded_of_le Nat.one_pos
    rw [Nat.mul_one]
    exact not_lt.1 fun hlt => absurd ((h.append_lt_midpoint_iff hd k).1 hlt) (not_lt.2 hle)

end Tracks

/-- One more digit at the end of a mantissa is appended to the magnitude of the others, with a
rounding. -/
theorem hexMantissa_concat (ds : List Char) (d : Char) :
    hexMantissa (ds ++ [d]) = (hexMantissa ds).appendHex (digitValue d) := by
  simp [hexMantissa]

/-- **A mantissa of hexadecimal digits tracks the number that they write.** Induction on the digits,
from the last one; that the number is in range makes sure that no digit overflows. -/
theorem tracks_hexMantissa {ds : List Char} (hds : ∀ d ∈ ds, isHex d)
    (hlt : ofDigits 16 ds * one < midpoint topPlace) :
    ∃ units, hexMantissa ds = .finite units ∧ Tracks units (ofDigits 16 ds) := by
  induction ds using List.reverseRecOn with
  | nil => exact ⟨0, rfl, .zero⟩
  | append_singleton ds d ih =>
    have hd := digitValue_lt (hds d (List.mem_append_right _ List.mem_cons_self))
    rw [ofDigits_concat] at hlt ⊢
    -- the digits before write a smaller number, which is in range too
    have hprefix : ofDigits 16 ds * one < midpoint topPlace :=
      (Nat.mul_le_mul_right one (by omega)).trans_lt hlt
    obtain ⟨units, hunits, htracks⟩ := ih (fun c hc => hds c (List.mem_append_left _ hc)) hprefix
    refine ⟨_, ?_, htracks.append hd⟩
    rw [hexMantissa_concat, hunits]
    apply Magnitude.nearest_of_lt Nat.one_pos
    rw [Nat.mul_one]
    exact (htracks.append_lt_midpoint_iff hd topPlace).2 hlt

/-! ## Powers of two -/

/-- From `2 ^ 1024` on, a power of two takes every number but zero to the limit. -/
theorem not_mul_two_zpow_lt_limit {n : Nat} (hn : n ≠ 0) {x : Int} (hx : 1024 ≤ x) :
    ¬ (n : ℚ) * (2 : ℚ) ^ x < 2 ^ 1024 - 2 ^ 970 := by
  obtain ⟨k, rfl⟩ := Int.eq_ofNat_of_zero_le (show 0 ≤ x by omega)
  have hlimit := mul_zpow_lt_limit_iff n 2 k
  push_cast at hlimit
  rw [hlimit, not_lt]
  calc midpoint topPlace ≤ 2 ^ (topPlace + 54) := (midpoint_lt topPlace).le
    _ ≤ 2 ^ (k + onePlace) := Nat.pow_le_pow_right Nat.two_pos (by unfold topPlace onePlace; omega)
    _ = 2 ^ k * one := by rw [one_eq, Nat.pow_add]
    _ ≤ n * 2 ^ k * one := Nat.mul_le_mul_right one
      (Nat.le_mul_of_pos_left _ (Nat.pos_of_ne_zero hn))

/-- A number in range stays there if it is divided by a power of two. -/
theorem mul_two_zpow_lt_limit {n : Nat} (hn : n * one < midpoint topPlace) {x : Int} (hx : x ≤ 0) :
    (n : ℚ) * (2 : ℚ) ^ x < 2 ^ 1024 - 2 ^ 970 := by
  obtain ⟨k, rfl⟩ : ∃ k : Nat, x = -(k : Int) := ⟨(-x).toNat, by omega⟩
  have hlimit := mul_zpow_neg_lt_limit_iff n Nat.two_pos k
  push_cast at hlimit
  rw [hlimit]
  exact hn.trans_le (Nat.le_mul_of_pos_right _ (Nat.two_pow_pos k))

/-- How a finite magnitude is scaled, as one chain of tests. -/
theorem Magnitude.scale_finite (units : Nat) (e : Int) : scale (finite units) e =
    if 1024 ≤ e then infinite
    else if e ≤ -1024 then finite 0
    else if 0 ≤ e then nearest (units * Nat.pow 2 e.toNat) 1
    else nearest units (Nat.pow 2 (-e).toNat) := rfl

/-- The range of a scaled magnitude is that of the number it tracks. Scaling moves midpoints to
midpoints, and where the power of two itself is infinite or zero, the scaled number is out of range
or in range in any case. -/
theorem Tracks.isFinite_scale {units n : Nat} (h : Tracks units n) (hn : n ≠ 0)
    (hlt : n * one < midpoint topPlace) (x : Int) :
    ((Magnitude.finite units).scale x).isFinite ↔
      (n : ℚ) * (2 : ℚ) ^ x < 2 ^ 1024 - 2 ^ 970 := by
  rw [Magnitude.scale_finite]
  split
  · next hlarge =>
    -- the power of two is infinite, and no number but zero stays in range
    exact iff_of_false Bool.false_ne_true (not_mul_two_zpow_lt_limit hn hlarge)
  · split
    · next hsmall =>
      -- the power of two is zero, and the number is in range without it
      exact iff_of_true rfl (mul_two_zpow_lt_limit hlt (by omega))
    · split
      · next hlarge hsmall hnonneg =>
        obtain ⟨k, rfl⟩ := Int.eq_ofNat_of_zero_le hnonneg
        have hlimit := mul_zpow_lt_limit_iff n 2 k
        push_cast at hlimit
        obtain ⟨j, hj⟩ : ∃ j, topPlace = j + k := ⟨topPlace - k, by unfold topPlace; omega⟩
        -- a multiple: the last midpoint, divided by the power, decides
        rw [hlimit, Magnitude.isFinite_nearest Nat.one_pos, Nat.mul_one, Int.toNat_natCast, hj,
          ← midpoint_mul_two_pow, Nat.mul_right_comm]
        show units * 2 ^ k < _ ↔ _
        rw [Nat.mul_lt_mul_right (Nat.two_pow_pos k), Nat.mul_lt_mul_right (Nat.two_pow_pos k)]
        exact h.lt_midpoint_iff j
      · next hneg =>
        obtain ⟨k, rfl⟩ : ∃ k : Nat, x = -(k : Int) := ⟨(-x).toNat, by omega⟩
        have hlimit := mul_zpow_neg_lt_limit_iff n Nat.two_pos k
        push_cast at hlimit
        rw [hlimit, neg_neg, Int.toNat_natCast]
        show (Magnitude.nearest units (2 ^ k)).isFinite ↔ _
        -- a quotient: the last midpoint, times the power, decides
        rw [Magnitude.isFinite_nearest (Nat.two_pow_pos k), midpoint_mul_two_pow]
        exact h.lt_midpoint_iff (topPlace + k)

/-! ## Hexadecimal magnitudes -/

theorem saturate_eq (n : Int) : saturate n = max (-2147483648) (min n 2147483647) := rfl

/-- Where the exponent is not held within 32 bits, it is out of all proportion anyway: fewer than
256 digits do not bring it back. -/
theorem hexScale_cases {m : Mantissa} (hlen : m.fraction.length < 256) (e : Int) :
    hexScale m e = e - 4 * m.fraction.length ∨
      1024 ≤ hexScale m e ∧ 1024 ≤ e - 4 * m.fraction.length ∨
      hexScale m e ≤ -1024 ∧ e - 4 * m.fraction.length ≤ -1024 := by
  unfold hexScale
  simp only [saturate_eq]
  omega

/-- **Hexadecimal magnitudes are in range exactly below the limit**, for exponents of any size,
though every digit is rounded. The mantissa tracks its number, and scaling keeps it on the side of
the limit where the number is. -/
theorem isFinite_hexMagnitude {m : Mantissa} (hm : ∀ d ∈ m.digits, isHex d)
    (hlen : m.digits.length < 256) (e : Int) :
    (hexMagnitude m e).isFinite ↔
      (ofDigits 16 m.digits : ℚ) * (2 : ℚ) ^ (e - 4 * m.fraction.length) < 2 ^ 1024 - 2 ^ 970 := by
  have hlt := ofDigits_mul_one_lt hm hlen
  obtain ⟨units, hunits, htracks⟩ := tracks_hexMantissa hm hlt
  -- the digits after the point are some of the digits
  have hfraction : m.fraction.length < 256 := by
    have hsum : (m.whole ++ m.fraction).length = _ := List.length_append
    unfold Mantissa.digits at hlen
    omega
  unfold hexMagnitude
  rw [hunits]
  simp only [Magnitude.finite.injEq, htracks.eq_zero_iff]
  by_cases hzero : ofDigits 16 m.digits = 0
  · rw [if_pos hzero, hzero, Nat.cast_zero, zero_mul]
    exact iff_of_true rfl limit_pos
  · rw [if_neg hzero, htracks.isFinite_scale hzero hlt]
    rcases hexScale_cases hfraction e with heq | ⟨hbig, hbig'⟩ | ⟨hsmall, hsmall'⟩
    · rw [heq]
    · -- saturated above: out of range on both sides
      exact iff_of_false (not_mul_two_zpow_lt_limit hzero hbig)
        (not_mul_two_zpow_lt_limit hzero hbig')
    · exact iff_of_true (mul_two_zpow_lt_limit hlt (by omega))
        (mul_two_zpow_lt_limit hlt (by omega))

end LabelQuery.Number
