import LabelQuery.Proofs.Number.Hexadecimal
import LabelQuery.Proofs.Number.Reading
import LabelQuery.Query.Clause
import Mathlib.Tactic.Positivity

/-!
# Number — which texts are numerals

A text is a numeral if it writes a number whose exact value is in range, that is, less than the last
midpoint `2 ^ 1024 - 2 ^ 970` by magnitude. The roundings on the way have no say in it.

* `decimalNumber` — the number that a decimal numeral writes.
* `WritesNumber` — a text writes a special numeral, or a decimal one in range.
* `Literal.classify_eq_number_iff` — such values are written bare, the others in quotes.
* `isNumeric_hexadecimal_iff` — hexadecimal numerals, by the exact value that they write.
-/

namespace LabelQuery

namespace Number

/-! ## The numbers that numerals write -/

/-- The number that a mantissa writes in a base. -/
def Mantissa.number (base : Nat) (m : Mantissa) : ℚ :=
  ofDigits base m.whole + ofDigits base m.fraction / (base : ℚ) ^ m.fraction.length

/-- The number that a decimal numeral writes, before any rounding. -/
def decimalNumber (negative : Bool) (m : Mantissa) (e : Int) : ℚ :=
  (if negative then -1 else 1) * (m.number 10 * 10 ^ e)

/-- A row of digits after another moves the other up by as many places. Induction on the second row,
from its last digit. -/
theorem ofDigits_append (base : Nat) (xs ys : List Char) :
    ofDigits base (xs ++ ys) = ofDigits base xs * base ^ ys.length + ofDigits base ys := by
  induction ys using List.reverseRecOn with
  | nil => simp [ofDigits]
  | append_singleton ys y ih =>
    rw [← List.append_assoc, ofDigits_concat, ih, ofDigits_concat, List.length_append,
      List.length_singleton]
    ring

/-- Without its point, a mantissa writes a whole number that is a power of the base greater. -/
theorem Mantissa.number_mul_pow {base : Nat} (hbase : 0 < base) (m : Mantissa) :
    m.number base * (base : ℚ) ^ m.fraction.length = ofDigits base m.digits := by
  have hpow : (base : ℚ) ^ m.fraction.length ≠ 0 := pow_ne_zero _ (Nat.cast_ne_zero.2 hbase.ne')
  unfold Mantissa.number Mantissa.digits
  rw [add_mul, div_mul_cancel₀ _ hpow, ofDigits_append]
  push_cast
  rfl

/-- Without its sign and its point, a decimal numeral writes a whole number times a power of ten,
whose exponent is less by the places after the point. -/
theorem abs_decimalNumber (negative : Bool) (m : Mantissa) (e : Int) :
    |decimalNumber negative m e| = ofDigits 10 m.digits * (10 : ℚ) ^ (e - m.fraction.length) := by
  have hten : (10 : ℚ) ≠ 0 := by norm_num
  have hnumber := m.number_mul_pow (show 0 < 10 by omega)
  have hnonneg : 0 ≤ m.number 10 * (10 : ℚ) ^ e := by
    apply mul_nonneg
    · unfold Mantissa.number
      positivity
    · exact zpow_nonneg (by norm_num) e
  -- the sign does not count
  have habs : |decimalNumber negative m e| = m.number 10 * (10 : ℚ) ^ e := by
    unfold decimalNumber
    cases negative with
    | false => rw [if_neg Bool.false_ne_true, one_mul, abs_of_nonneg hnonneg]
    | true => rw [if_pos rfl, neg_one_mul, abs_neg, abs_of_nonneg hnonneg]
  -- the places of the fraction are taken from one power to the other
  calc |decimalNumber negative m e|
    _ = m.number 10 * (10 : ℚ) ^ e := habs
    _ = m.number 10 * (10 : ℚ) ^ m.fraction.length * (10 : ℚ) ^ (e - m.fraction.length) := by
      rw [mul_assoc, ← zpow_natCast, ← zpow_add₀ hten, add_sub_cancel]
    _ = ofDigits 10 m.digits * (10 : ℚ) ^ (e - m.fraction.length) := by
      rw [← hnumber, Nat.cast_ofNat]

/-- **A decimal numeral is in range exactly if its number is below the limit.** -/
theorem inRange_decimal_iff (negative : Bool) (m : Mantissa) (e : Int) :
    (Numeral.decimal negative m e).inRange ↔ |decimalNumber negative m e| < 2 ^ 1024 - 2 ^ 970 := by
  rw [abs_decimalNumber]
  exact Magnitude.isFinite_ofDecimal (ofDigits 10 m.digits) (e - m.fraction.length)

/-! ## Decimal and special numerals -/

/-- A text writes a special numeral, or a decimal one whose number is below the limit. -/
def WritesNumber (cs : List Char) : Prop :=
  (∃ negative, Numeral.Written cs (.infinity negative)) ∨ Numeral.Written cs .nan ∨
    ∃ negative m e, Numeral.Written cs (.decimal negative m e) ∧
      |decimalNumber negative m e| < 2 ^ 1024 - 2 ^ 970

/-- A text that does not start like a hexadecimal numeral is a numeral exactly if it writes a
number. The forms of the numeral that it writes are the cases of `WritesNumber`. -/
theorem isNumeric_iff_writesNumber {cs : List Char} (h : ¬ StartsHexadecimal cs) :
    isNumeric cs ↔ WritesNumber cs := by
  rw [isNumeric_iff]
  constructor
  · rintro ⟨n, hn, hrange⟩
    cases n with
    | infinity negative => exact .inl ⟨negative, hn⟩
    | nan => exact .inr (.inl hn)
    | decimal negative m e =>
      -- a decimal numeral is not special, so it is in range
      have hin : (Numeral.decimal negative m e).inRange := by simpa [Numeral.isSpecial] using hrange
      exact .inr (.inr ⟨negative, m, e, hn, (inRange_decimal_iff negative m e).1 hin⟩)
    | hexadecimal negative m e => exact absurd (startsHexadecimal_of_written hn) h
  · rintro (⟨negative, hn⟩ | hn | ⟨negative, m, e, hn, hlt⟩)
    · exact ⟨_, hn, .inl rfl⟩
    · exact ⟨_, hn, .inl rfl⟩
    · exact ⟨_, hn, .inr ((inRange_decimal_iff negative m e).2 hlt)⟩

/-! ## Hexadecimal numerals -/

/-- What a text that starts like a hexadecimal numeral writes is hexadecimal. The readers of the
other forms would have to take the whole text, and they stop at the `x` or before. -/
theorem StartsHexadecimal.eq_hexadecimal {cs : List Char} {n : Numeral} (h : StartsHexadecimal cs)
    (hn : Numeral.Written cs n) : ∃ negative m e, n = .hexadecimal negative m e := by
  have hspecial := special?_of_startsHexadecimal h
  cases hn with
  | infinity hs hword =>
    rw [special?_infinity hs hword] at hspecial
    cases hspecial
  | nan hword =>
    rw [special?_nan hword] at hspecial
    cases hspecial
  | decimal hs hm he =>
    -- as a decimal numeral the text would end after the zero
    obtain ⟨n, x, rest, hpart⟩ := decimal?_of_startsHexadecimal h
    rw [decimal?_whole hs hm he] at hpart
    cases hpart
  | hexadecimal _ _ _ _ _ => exact ⟨_, _, _, rfl⟩

/-- The digits of a mantissa are digits, on both sides of its point. -/
theorem Mantissa.Written.digits {p : Char → Bool} {text : List Char} {m : Mantissa}
    (h : m.Written p text) : ∀ d ∈ m.digits, p d := by
  intro d hd
  cases h with
  | whole h => exact h.digits d (by simpa [Mantissa.digits] using hd)
  | point h => exact h.digits d (by simpa [Mantissa.digits] using hd)
  | both h h' => exact (List.mem_append.1 hd).elim (h.digits d) (h'.digits d)
  | fraction h' => exact h'.digits d hd

/-- **A hexadecimal text is a numeral exactly if it writes one below the limit.** Up to 255 digits,
each taken in with a rounding, and exponents of any size do not change what is in range. -/
theorem isNumeric_hexadecimal_iff {cs : List Char} (hstart : StartsHexadecimal cs)
    (hlen : ∀ negative m e, Numeral.Written cs (.hexadecimal negative m e) → m.digits.length < 256) :
    isNumeric cs ↔ ∃ negative m e, Numeral.Written cs (.hexadecimal negative m e) ∧
      (ofDigits 16 m.digits : ℚ) * 2 ^ (e - 4 * m.fraction.length) < 2 ^ 1024 - 2 ^ 970 := by
  -- for a numeral with few enough digits, in range means below the limit
  have hrange : ∀ {negative m e}, Numeral.Written cs (.hexadecimal negative m e) →
      ((Numeral.hexadecimal negative m e).inRange ↔
        (ofDigits 16 m.digits : ℚ) * 2 ^ (e - 4 * m.fraction.length) < 2 ^ 1024 - 2 ^ 970) := by
    intro negative m e hn
    have hdigits : ∀ d ∈ m.digits, isHex d := by
      cases hn with
      | hexadecimal _ _ _ hm _ => exact hm.digits
    exact isFinite_hexMagnitude hdigits (hlen negative m e hn) e
  rw [isNumeric_iff]
  constructor
  · rintro ⟨n, hn, hspecial | hin⟩
    · obtain ⟨negative, m, e, rfl⟩ := hstart.eq_hexadecimal hn
      cases hspecial
    · obtain ⟨negative, m, e, rfl⟩ := hstart.eq_hexadecimal hn
      exact ⟨negative, m, e, hn, (hrange hn).1 hin⟩
  · rintro ⟨negative, m, e, hn, hlt⟩
    exact ⟨_, hn, .inr ((hrange hn).2 hlt)⟩

/-- The greatest number of fourteen digits below the limit. -/
theorem isNumeric_hexadecimal_below_limit :
    isNumeric "+0X_F.FFFFFFFFFFFFBp+1_020".toList := by
  have hgroup : WrittenGroup isHex "FFFFFFFFFFFFB".toList "FFFFFFFFFFFFB".toList :=
    .of_digits (by decide) (List.all_eq_true.1 rfl)
  have hexponent : WrittenGroup isDecimal "1_020".toList "1020".toList :=
    .underscore rfl (.of_digits (by decide) (List.all_eq_true.1 rfl))
  have hwritten : Numeral.Written "+0X_F.FFFFFFFFFFFFBp+1_020".toList
      (.hexadecimal false ⟨['F'], "FFFFFFFFFFFFB".toList⟩ 1020) :=
    .hexadecimal .plus (show 'X'.toLower = 'x' from rfl) (.inr ⟨rfl, by decide⟩)
      (.both (.last rfl) hgroup)
      (.intro (show 'p'.toLower = 'p' from rfl) .plus hexponent)
  refine (isNumeric_hexadecimal_iff (startsHexadecimal_of_written hwritten) ?_).2
    ⟨false, _, 1020, hwritten, ?_⟩
  · intro negative m e hother
    cases hwritten.unique hother
    decide
  · exact (isFinite_hexMagnitude (List.all_eq_true.1 rfl) (by decide) 1020).1 (by decide +kernel)

end Number

namespace Literal

open Number

/-- **Values are classified exactly**: one that does not start like a hexadecimal numeral is a number
if it writes a number, and a text otherwise. -/
theorem classify_eq_number_iff (v : String) (h : ¬ StartsHexadecimal v.toList) :
    (classify v = .number v ↔ WritesNumber v.toList) ∧
      (classify v = .text v ↔ ¬ WritesNumber v.toList) := by
  rw [← isNumeric_iff_writesNumber h]
  unfold classify
  split
  · next hnumeric => simp [hnumeric]
  · next htext => simp [htext]

/-- A value with a sign, underscores and a point at its end is still a numeral, though its size is
near the limit. -/
theorem classify_large_decimal : classify "-1_7.e+3_07" = .number "-1_7.e+3_07" := by
  have hwhole : WrittenGroup isDecimal "1_7".toList "17".toList := .underscore rfl (.last rfl)
  have hexponent : WrittenGroup isDecimal "3_07".toList "307".toList :=
    .underscore rfl (.of_digits (by decide) (List.all_eq_true.1 rfl))
  have hwritten : Numeral.Written "-1_7.e+3_07".toList (.decimal true ⟨"17".toList, []⟩ 307) :=
    .decimal .minus (.point hwhole)
      (.inr (.intro (show 'e'.toLower = 'e' from rfl) .plus hexponent))
  -- the value writes a decimal numeral, so it does not start like a hexadecimal one
  have hstart : ¬ StartsHexadecimal "-1_7.e+3_07".toList := by
    intro h
    obtain ⟨_, _, _, hn⟩ := h.eq_hexadecimal hwritten
    cases hn
  have hlt : |decimalNumber true ⟨"17".toList, []⟩ 307| < 2 ^ 1024 - 2 ^ 970 :=
    (inRange_decimal_iff true ⟨"17".toList, []⟩ 307).1 (by decide +kernel)
  exact (classify_eq_number_iff _ hstart).1.2 (.inr (.inr ⟨true, _, 307, hwritten, hlt⟩))

end Literal

end LabelQuery
