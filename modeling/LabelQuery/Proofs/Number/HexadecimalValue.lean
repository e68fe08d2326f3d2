import LabelQuery.Proofs.Number.Numeric

/-!
# Number — the values of hexadecimal numerals

A hexadecimal numeral is not always read as the value nearest to what it writes. There are three
reasons, and they are the only ones.

* Digits are taken in with a rounding at each. After the first loss the others are lost too, so where
  the first ones lie halfway between two values, the even one is taken although what follows may
  decide for the other: `LosesTie`.
* The power of two is a value by itself. Below `2 ^ -1023` it is zero, and the product with it, though
  the digits might have made up for it.
* Exponents are held within 32 bits, before and after the places of the fraction are taken off.

* `hexRounded`, `hexMantissa_eq` — what a row of digits comes to.
* `hexRounded_eq_iff` — where that is the nearest value.
* `binary64?_hexadecimal_isNearest_iff` — which hexadecimal numerals are read as the nearest value.
-/

namespace LabelQuery.Number

open Numeral

/-! ## What a row of digits comes to -/

/-- The hexadecimal digits of a number after those that bring it to `2 ^ 53`. -/
def lostDigits (n : Nat) : Nat :=
  (n.log2 - 53) / 4

/-- The number without the digits that get lost. -/
def leadingPart (n : Nat) : Nat :=
  n / 16 ^ lostDigits n

/-- What the digits of a number come to, taken in one after another. -/
def hexRounded (n : Nat) : Nat :=
  rounded (leadingPart n) 1 * 16 ^ lostDigits n

theorem sixteen_pow (k : Nat) : 16 ^ k = 2 ^ (4 * k) :=
  (Nat.pow_mul 2 4 k).symm

/-- A number of at most 57 bits loses no digit: the last one may be rounded, but is not dropped. -/
theorem lostDigits_of_lt {n : Nat} (h : n < 2 ^ 57) : lostDigits n = 0 := by
  have hlog : n.log2 ≤ 56 := log2_le_of_lt h
  unfold lostDigits
  omega

theorem leadingPart_of_lt {n : Nat} (h : n < 2 ^ 57) : leadingPart n = n := by
  rw [leadingPart, lostDigits_of_lt h, Nat.pow_zero, Nat.div_one]

/-- One more hexadecimal digit adds four bits to a number that is not zero. -/
theorem log2_append {n d : Nat} (hn : n ≠ 0) (hd : d < 16) : (16 * n + d).log2 = n.log2 + 4 := by
  have hself := Nat.log2_self_le hn
  have hlt : n < 2 ^ (n.log2 + 1) := Nat.lt_log2_self
  rw [Nat.pow_succ] at hlt
  have hfour : 2 ^ (n.log2 + 4) = 2 ^ n.log2 * 16 := Nat.pow_add 2 n.log2 4
  apply (Nat.log2_eq_iff (by omega)).2
  rw [Nat.pow_succ 2 (n.log2 + 4), hfour]
  omega

/-- From `2 ^ 53` on, one more digit is one more lost digit. -/
theorem lostDigits_append {n d : Nat} (hn : 2 ^ 53 ≤ n) (hd : d < 16) :
    lostDigits (16 * n + d) = lostDigits n + 1 := by
  have hne : n ≠ 0 := by omega
  have hlog : 53 ≤ n.log2 := le_log2_of_le hn
  unfold lostDigits
  rw [log2_append hne hd]
  omega

/-- From `2 ^ 53` on, one more digit leaves the leading part as it is. -/
theorem leadingPart_append {n d : Nat} (hn : 2 ^ 53 ≤ n) (hd : d < 16) :
    leadingPart (16 * n + d) = leadingPart n := by
  have hdiv : (16 * n + d) / 16 = n := by omega
  unfold leadingPart
  rw [lostDigits_append hn hd, Nat.pow_succ', ← Nat.div_div_eq_div_mul, hdiv]

/-- The leading part still has 54 bits, since digits are lost only after it has them. -/
theorem two_pow_le_leadingPart {n : Nat} (hn : 2 ^ 53 ≤ n) : 2 ^ 53 ≤ leadingPart n := by
  have hne : n ≠ 0 := by omega
  have hlog : 53 ≤ n.log2 := le_log2_of_le hn
  unfold leadingPart
  rw [Nat.le_div_iff_mul_le (Nat.pow_pos (by omega)), sixteen_pow, ← Nat.pow_add]
  calc 2 ^ (53 + 4 * lostDigits n) ≤ 2 ^ n.log2 :=
        Nat.pow_le_pow_right Nat.two_pos (by unfold lostDigits; omega)
    _ ≤ n := Nat.log2_self_le hne

theorem le_log2_leadingPart {n : Nat} (hn : 2 ^ 53 ≤ n) : 53 ≤ (leadingPart n).log2 :=
  le_log2_of_le (two_pow_le_leadingPart hn)

/-- What a row of digits comes to is a value: a rounded number, times a power of two. -/
theorem isValue_hexRounded (n : Nat) : IsValue (hexRounded n) := by
  unfold hexRounded
  rw [sixteen_pow]
  exact (isNearest_rounded _).isValue.mul_two_pow _

/-- While no digit is lost, a row of digits comes to its number, rounded once. -/
theorem hexRounded_of_lt {n : Nat} (h : n < 2 ^ 57) : hexRounded n = rounded n 1 := by
  rw [hexRounded, leadingPart_of_lt h, lostDigits_of_lt h, Nat.pow_zero, Nat.mul_one]

theorem hexRounded_of_lt_two_pow {n : Nat} (h : n < 2 ^ 53) : hexRounded n = n := by
  have hvalue : IsValue n := ⟨n, 0, h, (Nat.mul_one n).symm⟩
  rw [hexRounded_of_lt (by omega), hvalue.rounded_eq]

/-- From `2 ^ 53` on, what a row of digits comes to stays there, so that further digits are lost. -/
theorem two_pow_le_hexRounded {n : Nat} (hn : 2 ^ 53 ≤ n) : 2 ^ 53 ≤ hexRounded n := by
  have hlog := le_log2_leadingPart hn
  obtain ⟨j, hj⟩ : ∃ j, (leadingPart n).log2 = j + 52 := ⟨(leadingPart n).log2 - 52, by omega⟩
  calc 2 ^ 53 ≤ 2 ^ (j + 52) := Nat.pow_le_pow_right Nat.two_pos (by omega)
    _ ≤ rounded (leadingPart n) 1 := two_pow_le_rounded (by rw [Nat.div_one]; exact hj)
    _ ≤ hexRounded n := Nat.le_mul_of_pos_right _ (Nat.pow_pos (by omega))

/-- One more digit, taken in with a rounding. From `2 ^ 53` on it is lost: sixteen times the value
so far has a step of 32 at least, and the digit is less than half of that. -/
theorem hexRounded_append (n : Nat) {d : Nat} (hd : d < 16) :
    rounded (16 * hexRounded n + d) 1 = hexRounded (16 * n + d) := by
  rcases Nat.lt_or_ge n (2 ^ 53) with hlt | hge
  · rw [hexRounded_of_lt_two_pow hlt, hexRounded_of_lt (by omega)]
  · -- a multiple of its step takes a digit that is less than half a step
    have hlarge := two_pow_le_hexRounded hge
    have hstep : step (16 * hexRounded n) = 16 * step (hexRounded n) := by
      have hshift := step_mul_two_pow (show 2 ^ 52 ≤ hexRounded n by omega) 4
      rwa [Nat.mul_comm _ (2 ^ 4), Nat.mul_comm _ (2 ^ 4)] at hshift
    have htwo : 2 ≤ step (hexRounded n) := by
      have hlog : 53 ≤ (hexRounded n).log2 := le_log2_of_le hlarge
      exact Nat.pow_le_pow_right Nat.two_pos (show 1 ≤ (hexRounded n).log2 - 52 by omega)
    have hdvd : step (16 * hexRounded n) ∣ 16 * hexRounded n := by
      rw [hstep]
      exact Nat.mul_dvd_mul_left 16 (isValue_hexRounded n).step_dvd
    rw [rounded_add hdvd (by omega) (by omega), hexRounded, hexRounded, leadingPart_append hge hd,
      lostDigits_append hge hd, Nat.pow_succ']
    ring

/-- **A row of digits comes to `hexRounded`**, unless it overflows. Induction on the digits, from
the last one, with `hexRounded_append` as the step; units are taken out of the rounding as a power
of two. -/
theorem hexMantissa_eq {ds : List Char} {units : Nat} (hds : ∀ d ∈ ds, isHex d)
    (h : hexMantissa ds = .finite units) : units = hexRounded (ofDigits 16 ds) * one := by
  induction ds using List.reverseRecOn generalizing units with
  | nil =>
    have hzero : ofDigits 16 [] = 0 := rfl
    rw [hzero, hexRounded_of_lt_two_pow (Nat.two_pow_pos 53), Nat.zero_mul]
    exact (Magnitude.finite.inj h).symm
  | append_singleton ds d ih =>
    have hd := digitValue_lt (hds d (List.mem_append_right _ List.mem_cons_self))
    rw [hexMantissa_concat] at h
    cases hfirst : hexMantissa ds with
    | infinite =>
      rw [hfirst] at h
      cases h
    | finite units' =>
      have hunits := ih (fun c hc => hds c (List.mem_append_left _ hc)) hfirst
      -- the digits so far and the next one, as units
      have hnumber : 16 * units' + digitValue d * one =
          (16 * hexRounded (ofDigits 16 ds) + digitValue d) * 2 ^ onePlace := by
        rw [hunits, ← one_eq]
        ring
      rw [hfirst] at h
      have hround :
          Magnitude.ofUnits (rounded (16 * units' + digitValue d * one) 1) = .finite units := h
      rw [hnumber, rounded_mul_two_pow, hexRounded_append _ hd, ← ofDigits_concat, ← one_eq] at hround
      unfold Magnitude.ofUnits at hround
      split at hround
      · exact (Magnitude.finite.inj hround).symm
      · cases hround

/-! ## Where it is the nearest value -/

/-- The leading part of a number lies halfway between two values, of which the lower is even, and the
digits that get lost are not all zero. -/
def LosesTie (n : Nat) : Prop :=
  2 * (leadingPart n % step (leadingPart n)) = step (leadingPart n) ∧
    leadingPart n / step (leadingPart n) % 2 = 0 ∧ n % 16 ^ lostDigits n ≠ 0

instance (n : Nat) : Decidable (LosesTie n) :=
  inferInstanceAs (Decidable (_ ∧ _ ∧ _))

/-- Without its last digits a number is rounded the same way, with an even step, unless that leaves
a tie that was none. The remainder without the last digits is compared with half the step. -/
theorem roundDiv_div_eq_iff {n s k : Nat} (hk : 0 < k) (hs : s % 2 = 0) :
    roundDiv (n / k) s = roundDiv n (s * k) ↔
      ¬ (2 * (n / k % s) = s ∧ n / k / s % 2 = 0 ∧ n % k ≠ 0) := by
  have hdiv : n / (s * k) = n / k / s := by rw [Nat.mul_comm, Nat.div_div_eq_div_mul]
  have hmod : n % (s * k) = n % k + k * (n / k % s) := by rw [Nat.mul_comm, Nat.mod_mul]
  have hlost : n % k < k := Nat.mod_lt n hk
  obtain ⟨t, rfl⟩ : ∃ t, s = 2 * t := ⟨s / 2, by omega⟩
  unfold roundDiv
  rw [hdiv, hmod]
  generalize n / k / (2 * t) = q
  generalize n / k % (2 * t) = r at *
  generalize n % k = d at *
  have hhalf : 2 * t * k = 2 * (k * t) := by ring
  rw [hhalf]
  -- the lost digits matter at the tie only
  rcases Nat.lt_trichotomy r t with hlt | rfl | hgt
  · have hle : k * r + k ≤ k * t := Nat.mul_le_mul_left k hlt
    split <;> split <;> omega
  · split <;> split <;> omega
  · have hle : k * t + k ≤ k * r := Nat.mul_le_mul_left k hgt
    split <;> split <;> omega

/-- Dividing by a power of two takes as many bits off. -/
theorem log2_div_two_pow {n i : Nat} (h : n / 2 ^ i ≠ 0) : n.log2 = (n / 2 ^ i).log2 + i := by
  have hpos := Nat.two_pow_pos i
  have hle : n / 2 ^ i * 2 ^ i ≤ n := Nat.div_mul_le_self n _
  have hne : n ≠ 0 := by
    rintro rfl
    exact h (Nat.zero_div _)
  apply (Nat.log2_eq_iff hne).2
  constructor
  · rw [Nat.pow_add]
    exact (Nat.mul_le_mul_right _ (Nat.log2_self_le h)).trans hle
  · rw [Nat.add_right_comm, Nat.pow_add 2 _ i]
    exact (Nat.div_lt_iff_lt_mul hpos).1 Nat.lt_log2_self

/-- The digits that get lost are shorter than a step: the step of the number is that of the leading
part, as many digits further up. -/
theorem step_eq_step_leadingPart {n : Nat} (hn : 2 ^ 53 ≤ n) :
    step n = step (leadingPart n) * 16 ^ lostDigits n := by
  have hlead := two_pow_le_leadingPart hn
  have hlog := le_log2_leadingPart hn
  have hdiv : leadingPart n = n / 2 ^ (4 * lostDigits n) := by rw [leadingPart, sixteen_pow]
  have hsum : n.log2 = (leadingPart n).log2 + 4 * lostDigits n := by
    rw [hdiv]
    exact log2_div_two_pow (by omega)
  rw [sixteen_pow]
  show 2 ^ (n.log2 - 52) = 2 ^ ((leadingPart n).log2 - 52) * 2 ^ (4 * lostDigits n)
  rw [← Nat.pow_add, hsum]
  congr 1
  omega

/-- **A row of digits comes to the nearest value unless it loses a tie.** Up to 53 bits nothing is
lost. From there on both sides are a quotient by the same step, one of them without the last digits,
and `roundDiv_div_eq_iff` compares them. -/
theorem hexRounded_eq_iff (n : Nat) : hexRounded n = rounded n 1 ↔ ¬ LosesTie n := by
  rcases Nat.lt_or_ge n (2 ^ 53) with hlt | hge
  · -- nothing is lost
    have hnone : ¬ LosesTie n := by
      rintro ⟨-, -, hlost⟩
      rw [lostDigits_of_lt (by omega), Nat.pow_zero, Nat.mod_one] at hlost
      exact hlost rfl
    exact iff_of_true (hexRounded_of_lt (by omega)) hnone
  · have hlog := le_log2_leadingPart hge
    -- steps of more than one unit are even
    have heven : step (leadingPart n) % 2 = 0 :=
      Nat.mod_eq_zero_of_dvd (Nat.pow_dvd_pow 2 (show 1 ≤ (leadingPart n).log2 - 52 by omega))
    have hpos : 0 < 16 ^ lostDigits n := Nat.pow_pos (by omega)
    have hround := @roundDiv_div_eq_iff n _ _ hpos heven
    rw [hexRounded, rounded_one_eq, rounded_one_eq, step_eq_step_leadingPart hge, Nat.mul_assoc,
      Nat.mul_right_cancel_iff (Nat.mul_pos (step_pos _) hpos)]
    exact hround

/-- The leading part is `2 ^ 53 + 1`, halfway between two values, and the last digit would decide. -/
example : LosesTie 0x200000000000011 := by decide +kernel

/-- Digit by digit or all at once, the value is not far from the number: it lies between two thirds
and four thirds of it. This is enough to tell a wrong exponent, which is off by a half at least. -/
theorem hexRounded_bounds {n : Nat} (hn : n ≠ 0) :
    2 * n < 3 * hexRounded n ∧ 3 * hexRounded n < 4 * n := by
  rcases Nat.lt_or_ge n (2 ^ 53) with hlt | hge
  · rw [hexRounded_of_lt_two_pow hlt]
    omega
  · have hlead := two_pow_le_leadingPart hge
    have hstep : step (leadingPart n) * 2 ^ 52 ≤ leadingPart n := by
      have hlog := le_log2_leadingPart hge
      calc step (leadingPart n) * 2 ^ 52
          = 2 ^ ((leadingPart n).log2 - 52 + 52) := (Nat.pow_add 2 _ 52).symm
        _ = 2 ^ (leadingPart n).log2 := by rw [Nat.sub_add_cancel (by omega)]
        _ ≤ leadingPart n := Nat.log2_self_le (by omega)
    have hpos : 0 < 16 ^ lostDigits n := Nat.pow_pos (by omega)
    -- the leading part is within a lost digit of the number
    have hlow : leadingPart n * 16 ^ lostDigits n ≤ n := Nat.div_mul_le_self n _
    have hhigh : n < (leadingPart n + 1) * 16 ^ lostDigits n :=
      (Nat.div_lt_iff_lt_mul hpos).1 (Nat.lt_succ_self _)
    -- and rounding moves it by half a step at most
    obtain ⟨hbelow, habove, -⟩ := @roundDiv_close (leadingPart n) _ (step_pos (leadingPart n))
    rw [← rounded_one_eq] at hbelow habove
    have hmore : (2 * (leadingPart n + 1)) * 16 ^ lostDigits n ≤ 3 * hexRounded n := by
      rw [hexRounded, ← Nat.mul_assoc]
      exact Nat.mul_le_mul_right _ (by omega)
    have hless : 3 * hexRounded n < 4 * leadingPart n * 16 ^ lostDigits n := by
      rw [hexRounded, ← Nat.mul_assoc]
      exact Nat.mul_lt_mul_of_pos_right (by omega) hpos
    rw [Nat.mul_assoc] at hmore hless
    omega

/-! ## Times a power of two -/

/-- A value is scaled without a rounding, as long as the power of two is neither zero nor infinite.
A power below one is a quotient of which the denominator cancels. -/
theorem scale_mul_one {n : Nat} (hn : IsValue n) {x : Int} (hlow : -1024 < x) (hhigh : x < 1024) :
    (Magnitude.finite (n * one)).scale x = .ofUnits (n * 2 ^ (x + onePlace).toNat) := by
  have hlarge : ¬ 1024 ≤ x := by omega
  have hsmall : ¬ x ≤ -1024 := by omega
  rw [Magnitude.scale_finite, if_neg hlarge, if_neg hsmall, one_eq, nearest_eq, nearest_eq]
  split
  · next hnonneg =>
    have hexp : n * 2 ^ onePlace * Nat.pow 2 x.toNat = n * 2 ^ (x + onePlace).toNat := by
      rw [Nat.pow_eq, Nat.mul_assoc, ← Nat.pow_add]
      congr 2
      omega
    rw [hexp, (hn.mul_two_pow _).rounded_eq]
  · next hneg =>
    have hsplit : n * 2 ^ onePlace = n * 2 ^ (x + onePlace).toNat * 2 ^ (-x).toNat := by
      rw [Nat.mul_assoc, ← Nat.pow_add]
      congr 2
      unfold onePlace
      omega
    have hquot : rounded (n * 2 ^ onePlace) (Nat.pow 2 (-x).toNat) = n * 2 ^ (x + onePlace).toNat := by
      have hcancel :=
        @rounded_mul_right (n * 2 ^ (x + onePlace).toNat) 1 _ (Nat.two_pow_pos (-x).toNat)
      rw [← hsplit, Nat.one_mul] at hcancel
      exact hcancel.trans (hn.mul_two_pow _).rounded_eq
    rw [hquot]

/-- A number times a power of two that is not too small is a whole number of units. -/
theorem mul_zpow_mul_one (n : Nat) {x : Int} (hx : 0 ≤ x + onePlace) :
    (n : ℚ) * 2 ^ x * one = (n * 2 ^ (x + onePlace).toNat : Nat) := by
  have htwo : (2 : ℚ) ≠ 0 := by norm_num
  have hexp : (((x + onePlace).toNat : Nat) : ℤ) = x + onePlace := Int.toNat_of_nonneg hx
  rw [one_eq]
  push_cast
  rw [mul_assoc, ← zpow_natCast (2 : ℚ) onePlace, ← zpow_add₀ htwo, ← zpow_natCast (2 : ℚ) _, hexp]

/-- With another power of two, the value would be wrong by half at least. If the exponent is too
small, the double of the value is nearer, and if it is too great, its half is. -/
theorem eq_of_isNearest_scaled {n : Nat} (hn : n ≠ 0) {x x' : Int} (hlow : -1024 < x')
    (h : IsNearest ((n : ℚ) * 2 ^ x * one) (hexRounded n * 2 ^ (x' + onePlace).toNat)) : x' = x := by
  have hplace : (onePlace : Int) = 1074 := rfl
  have hbase : (1 : ℚ) ≤ 2 := by norm_num
  -- powers of two grow with their exponents
  have hscaled : ∀ {a b : Int}, a ≤ b → (n : ℚ) * 2 ^ a * one ≤ (n : ℚ) * 2 ^ b * one := by
    intro a b hab
    exact mul_le_mul_of_nonneg_right (mul_le_mul_of_nonneg_left
      (zpow_le_zpow_right₀ hbase hab) (Nat.cast_nonneg n)) (Nat.cast_nonneg one)
  obtain ⟨i, hi⟩ : ∃ i, (x' + onePlace).toNat = i + 1 := ⟨(x' + onePlace).toNat - 1, by omega⟩
  obtain ⟨hlower, hupper⟩ := hexRounded_bounds hn
  have hpow : (0 : ℚ) < 2 ^ i := pow_pos (by norm_num) i
  have hlower' : (2 : ℚ) * n * 2 ^ i < 3 * hexRounded n * 2 ^ i :=
    mul_lt_mul_of_pos_right (by exact_mod_cast hlower) hpow
  have hupper' : (3 : ℚ) * hexRounded n * 2 ^ i < 4 * n * 2 ^ i :=
    mul_lt_mul_of_pos_right (by exact_mod_cast hupper) hpow
  have hunits : hexRounded n * 2 ^ (i + 1) = hexRounded n * 2 ^ i * 2 := by
    rw [Nat.pow_succ, Nat.mul_assoc]
  have hpos : 0 < hexRounded n * 2 ^ i := Nat.mul_pos (by omega) (Nat.two_pow_pos i)
  rw [hi, hunits] at h
  rcases Int.lt_trichotomy x' x with hlt | heq | hgt
  · -- the exponent is too small: the double of the value would be nearer
    have hle := hscaled (show x' + 1 ≤ x by omega)
    have hexp : (x' + 1 + onePlace).toNat = i + 2 := by omega
    have hbig := h.two_mul_le (Nat.mul_pos hpos Nat.two_pos)
    rw [mul_zpow_mul_one n (show 0 ≤ x' + 1 + onePlace by omega), hexp, Nat.pow_add 2 i 2] at hle
    push_cast at hle hbig
    linarith
  · exact heq
  · -- the exponent is too great: the half of the value would be nearer
    have hle := hscaled (show x ≤ x' - 1 by omega)
    have hexp : (x' - 1 + onePlace).toNat = i := by omega
    have hsmall := h.three_mul_le ((isValue_hexRounded n).mul_two_pow i) hpos
    rw [mul_zpow_mul_one n (show 0 ≤ x' - 1 + onePlace by omega), hexp] at hle
    push_cast at hle hsmall
    linarith

/-- Scaled, a row of digits comes to the nearest value if the power of two is the right one and no
tie is lost. A power of two comes through rounding, so only the digits matter once the exponent is
right. -/
theorem isNearest_scaled_iff {n : Nat} (hn : n ≠ 0) {x x' : Int} (hlow : -1024 < x') :
    IsNearest ((n : ℚ) * 2 ^ x * one) (hexRounded n * 2 ^ (x' + onePlace).toNat) ↔
      x' = x ∧ ¬ LosesTie n := by
  have hplace : (onePlace : Int) = 1074 := rfl
  have hright : IsNearest ((n : ℚ) * 2 ^ x' * one) (hexRounded n * 2 ^ (x' + onePlace).toNat) ↔
      ¬ LosesTie n := by
    rw [mul_zpow_mul_one n (by omega), isNearest_iff_eq_rounded, rounded_mul_two_pow,
      Nat.mul_right_cancel_iff (Nat.two_pow_pos _)]
    exact hexRounded_eq_iff n
  constructor
  · intro h
    obtain rfl := eq_of_isNearest_scaled hn hlow h
    exact ⟨rfl, hright.1 h⟩
  · rintro ⟨rfl, hties⟩
    exact hright.2 hties

/-- The units that a hexadecimal numeral in range is read as: none if its digits or the power of two
are zero, otherwise those of the digits, scaled. -/
theorem hexMagnitude_cases {m : Mantissa} {e : Int} {units : Nat} (hm : ∀ d ∈ m.digits, isHex d)
    (h : hexMagnitude m e = .finite units) : units < overflow ∧
    (ofDigits 16 m.digits = 0 ∧ units = 0 ∨
      ofDigits 16 m.digits ≠ 0 ∧ hexScale m e ≤ -1024 ∧ units = 0 ∨
      ofDigits 16 m.digits ≠ 0 ∧ -1024 < hexScale m e ∧
        units = hexRounded (ofDigits 16 m.digits) * 2 ^ (hexScale m e + onePlace).toNat) := by
  have hoverflow : 0 < overflow := by
    rw [overflow_eq]
    exact Nat.two_pow_pos _
  unfold hexMagnitude at h
  split at h
  · next hmantissa =>
    cases h
    refine ⟨hoverflow, .inl ⟨?_, rfl⟩⟩
    -- digits that are not all zero come to something
    by_contra hne
    have hzero := hexMantissa_eq hm hmantissa
    have hbounds := hexRounded_bounds hne
    have hpos : 0 < hexRounded (ofDigits 16 m.digits) * one := Nat.mul_pos (by omega) one_pos
    omega
  · next hmantissa =>
    cases hfound : hexMantissa m.digits with
    | infinite =>
      rw [hfound] at h
      cases h
    | finite units' =>
      have hunits := hexMantissa_eq hm hfound
      have hne : ofDigits 16 m.digits ≠ 0 := by
        intro hzero
        rw [hzero, hexRounded_of_lt_two_pow (Nat.two_pow_pos 53), Nat.zero_mul] at hunits
        rw [hfound, hunits] at hmantissa
        exact hmantissa rfl
      rw [hfound, hunits] at h
      -- the power of two is zero, of use, or infinite
      rcases Int.lt_or_le (-1024) (hexScale m e) with hlow | hlow
      · rcases Int.lt_or_le (hexScale m e) 1024 with hhigh | hhigh
        · rw [scale_mul_one (isValue_hexRounded _) hlow hhigh, Magnitude.ofUnits] at h
          split at h
          · next hlt =>
            cases h
            exact ⟨hlt, .inr (.inr ⟨hne, hlow, rfl⟩)⟩
          · cases h
        · rw [Magnitude.scale_finite, if_pos hhigh] at h
          cases h
      · rw [Magnitude.scale_finite, if_neg (by omega), if_pos hlow] at h
        cases h
        exact ⟨hoverflow, .inr (.inl ⟨hne, hlow, rfl⟩)⟩

/-! ## Numerals -/

/-- Half a unit is `2 ^ -1075`, the bound up to which zero is the nearest value. -/
theorem two_mul_mul_one_le_iff (q : ℚ) : 2 * (q * one) ≤ 1 ↔ q ≤ 2 ^ (-1075 : ℤ) := by
  have hone : (2 : ℚ) * one = 2 ^ (onePlace + 1) := by
    rw [one_eq, pow_succ]
    push_cast
    ring
  have hpos : (0 : ℚ) < 2 ^ (onePlace + 1) := pow_pos (by norm_num) _
  have hinv : (2 : ℚ) ^ (-1075 : ℤ) = 1 / 2 ^ (onePlace + 1) := by
    rw [one_div, ← zpow_natCast, ← zpow_neg]
    rfl
  have hcomm : 2 * (q * one) = q * 2 ^ (onePlace + 1) := by
    rw [← hone]
    ring
  rw [hcomm, hinv, le_div_iff₀ hpos]

/-- **Which hexadecimal numerals are read as the value nearest to what they write.** Zeros are. Where
the power of two underflows, zero is read, and that is the nearest value up to half a unit only. All
others are if the power of two has its exponent, and the digits do not lose a tie. -/
theorem binary64?_hexadecimal_isNearest_iff {cs rest : List Char} {negative : Bool} {m : Mantissa}
    {e : Int} (h : read? cs = some (.hexadecimal negative m e, rest)) :
    ∃ units, binary64? cs = some (.signed negative (.finite units), rest) ∧ units < overflow ∧
      (units = 0 ↔ ofDigits 16 m.digits = 0 ∨ hexScale m e ≤ -1024) ∧
      (IsNearest ((ofDigits 16 m.digits : ℚ) * 2 ^ (e - 4 * m.fraction.length) * one) units ↔
        ofDigits 16 m.digits = 0 ∨
        hexScale m e ≤ -1024 ∧
          (ofDigits 16 m.digits : ℚ) * 2 ^ (e - 4 * m.fraction.length) ≤ 2 ^ (-1075 : ℤ) ∨
        -1024 < hexScale m e ∧ hexScale m e = e - 4 * m.fraction.length ∧
          ¬ LosesTie (ofDigits 16 m.digits)) := by
  obtain ⟨text, -, hn, hrange⟩ := read?_written h
  have hdigits : ∀ d ∈ m.digits, isHex d := by
    cases hn with
    | hexadecimal _ _ _ hm _ => exact hm.digits
  have hin : (Numeral.hexadecimal negative m e).inRange := by simpa [isSpecial] using hrange
  have hfinite : (hexMagnitude m e).isFinite := hin
  obtain ⟨units, hunits⟩ : ∃ units, hexMagnitude m e = .finite units := by
    cases hmagnitude : hexMagnitude m e with
    | finite units => exact ⟨units, rfl⟩
    | infinite =>
      rw [hmagnitude] at hfinite
      cases hfinite
  have hvalue : binary64? cs = some (.signed negative (.finite units), rest) := by
    rw [binary64?, h, ← hunits]
    rfl
  obtain ⟨hoverflow, hcases⟩ := hexMagnitude_cases hdigits hunits
  refine ⟨units, hvalue, hoverflow, ?_⟩
  generalize ofDigits 16 m.digits = n at *
  have hnonneg : (0 : ℚ) ≤ n * 2 ^ (e - 4 * m.fraction.length) * one :=
    mul_nonneg (mul_nonneg (Nat.cast_nonneg n) (zpow_nonneg (by norm_num) _)) (Nat.cast_nonneg one)
  -- zero digits; a power of two that is zero; digits that are scaled
  rcases hcases with ⟨rfl, rfl⟩ | ⟨hne, hlow, rfl⟩ | ⟨hne, hlow, rfl⟩
  · have hzero : IsNearest (((0 : Nat) : ℚ) * 2 ^ (e - 4 * m.fraction.length) * one) 0 := by
      rw [isNearest_zero_iff hnonneg, Nat.cast_zero, zero_mul, zero_mul, mul_zero]
      exact zero_le_one
    exact ⟨iff_of_true rfl (.inl rfl), iff_of_true hzero (.inl rfl)⟩
  · refine ⟨iff_of_true rfl (.inr hlow), ?_⟩
    have hnot : ¬ -1024 < hexScale m e := by omega
    rw [isNearest_zero_iff hnonneg, two_mul_mul_one_le_iff]
    simp only [hne, hlow, hnot, false_or, true_and, false_and, or_false]
  · have hpos : hexRounded n * 2 ^ (hexScale m e + onePlace).toNat ≠ 0 := by
      have hbounds := hexRounded_bounds hne
      exact (Nat.mul_pos (by omega) (Nat.two_pow_pos _)).ne'
    have hnot : ¬ hexScale m e ≤ -1024 := by omega
    refine ⟨iff_of_false hpos (by simp only [hne, hnot, or_self, not_false_eq_true]), ?_⟩
    rw [isNearest_scaled_iff hne hlow]
    simp only [hne, hlow, hnot, false_or, true_and, false_and]

/-- A number between two values, below the middle. -/
theorem binary64?_hexadecimal_below_tie : ∃ units,
    binary64? "-0x1.00000000000007fp-900".toList = some (.signed true (.finite units), []) ∧
      IsNearest ((ofDigits 16 "100000000000007f".toList : ℚ) * 2 ^ (-900 - 4 * 15 : ℤ) * one)
        units := by
  have hread : read? "-0x1.00000000000007fp-900".toList =
      some (.hexadecimal true ⟨['1'], "00000000000007f".toList⟩ (-900), []) := by decide +kernel
  obtain ⟨units, hvalue, -, -, hnearest⟩ := binary64?_hexadecimal_isNearest_iff hread
  exact ⟨units, hvalue, hnearest.2 (.inr (.inr ⟨by decide, by decide, by decide +kernel⟩))⟩

/-- The power of two underflows here, though the number, `1.5 * 2 ^ -1022`, is a value itself. -/
theorem binary64?_hexadecimal_underflow :
    read? "0x1.8p-1022".toList = some (.hexadecimal false ⟨['1'], ['8']⟩ (-1022), []) ∧
      binary64? "0x1.8p-1022".toList = some (.signed false (.finite 0), []) ∧
      ¬ IsNearest ((ofDigits 16 ['1', '8'] : ℚ) * 2 ^ (-1022 - 4 * 1 : ℤ) * one) 0 := by
  refine ⟨by decide +kernel, by decide +kernel, ?_⟩
  have hdigits : ofDigits 16 ['1', '8'] = 24 := by decide
  have hpow : (0 : ℚ) < 2 ^ (-1022 - 4 * 1 : ℤ) := zpow_pos (by norm_num) _
  have hnonneg : (0 : ℚ) ≤ (24 : Nat) * 2 ^ (-1022 - 4 * 1 : ℤ) * one :=
    mul_nonneg (mul_nonneg (Nat.cast_nonneg 24) hpow.le) (Nat.cast_nonneg one)
  rw [hdigits, isNearest_zero_iff hnonneg, two_mul_mul_one_le_iff, not_le]
  calc (2 : ℚ) ^ (-1075 : ℤ) < 2 ^ (-1022 - 4 * 1 : ℤ) :=
        zpow_lt_zpow_right₀ (by norm_num) (by norm_num)
    _ ≤ (24 : Nat) * 2 ^ (-1022 - 4 * 1 : ℤ) := le_mul_of_one_le_left hpow.le (by norm_num)

end LabelQuery.Number
