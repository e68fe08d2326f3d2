import LabelQuery.Proofs.Number.Numeric
import LabelQuery.Proofs.Selector.Printing
import LabelQuery.Query.Clause

/-!
# Query — order tests

An order test compares a label with an integer by `>` or `<`. Three readers look at the integer, and
each has its own rules: a selector wants digits after an optional minus sign, a requirement takes an
optional sign of either kind and the range of 64 bits, and a condition leaves a value without quotes
if it is a numeral. They fit together: what a requirement takes, a condition leaves bare, and of what
a selector reads a requirement takes exactly what is in range.

* `isNumeric_of_writtenInt64` — a whole number of 64 bits is a numeral, and far from the limit.
* `orderTest_bare` — an order test is written with a bare number, and a selector holds one exactly if
  its integer is in range.
-/

namespace LabelQuery

open Label

/-! ## Whole numbers are numerals -/

namespace Number

theorem natAbs_signed (negative : Bool) (n : Nat) : (signed negative n).natAbs = n := by
  cases negative with
  | false => rfl
  | true => exact Int.natAbs_neg n

/-- The integers of 64 bits are at most 2 to the power of 63, the least one just so. -/
theorem le_of_inInt64 {n : Int} (h : InInt64 n) : n.natAbs ≤ 2 ^ 63 := by
  obtain ⟨hlow, hhigh⟩ := h
  have hpow : Int.pow 2 63 = 2 ^ 63 := rfl
  omega

/-- That is far from the limit of numerals. -/
theorem two_pow_lt_limit : (2 : ℚ) ^ 63 < 2 ^ 1024 - 2 ^ 970 := by
  have hsmall : (2 : ℚ) ^ 63 < 2 ^ 970 := pow_lt_pow_right₀ (by norm_num) (by norm_num)
  -- the limit is at least half of the larger power
  have hlarge : (2 : ℚ) ^ 970 + 2 ^ 970 ≤ 2 ^ 1024 := by
    rw [← two_mul, ← pow_succ']
    exact pow_le_pow_right₀ (by norm_num) (by norm_num)
  exact hsmall.trans_le (le_sub_iff_add_le.2 hlarge)

theorem written_decimal {s ds : List Char} {negative : Bool} (hs : WrittenSign s negative)
    (hds : IsDigits ds) : Numeral.Written (s ++ ds) (.decimal negative ⟨ds, []⟩ 0) := by
  have hgroup : WrittenGroup isDecimal ds ds := .of_digits hds.1 hds.2
  simpa using Numeral.Written.decimal hs (.whole hgroup) (.inl ⟨rfl, rfl⟩)

/-- **A whole number of 64 bits is a numeral.** It writes a decimal numeral without point and
exponent, and its size is far from the limit. -/
theorem isNumeric_of_writtenInt64 {cs : List Char} (h : WrittenInt64 cs) : isNumeric cs := by
  obtain ⟨_, ⟨hs, hds⟩, hrange⟩ := h
  rename_i s ds negative
  refine isNumeric_iff.2 ⟨_, written_decimal hs hds, .inr ?_⟩
  have hle : ofDigits 10 ds ≤ 2 ^ 63 := by
    rw [← natAbs_signed negative (ofDigits 10 ds)]
    exact le_of_inInt64 hrange
  -- the number that is written is the one that the digits write, up to its sign
  rw [inRange_decimal_iff, abs_decimalNumber]
  calc (ofDigits 10 (Mantissa.digits ⟨ds, []⟩) : ℚ) * 10 ^ (0 - (([] : List Char).length : Int))
    _ = ofDigits 10 ds := by simp [Mantissa.digits]
    _ ≤ 2 ^ 63 := by exact_mod_cast hle
    _ < 2 ^ 1024 - 2 ^ 970 := two_pow_lt_limit

end Number

/-- A value that a requirement takes for an integer is a number in conditions too. -/
theorem Literal.classify_of_isInteger {v : String} (h : IsInteger v) : classify v = .number v :=
  if_pos (Number.isNumeric_of_writtenInt64 (Requirement.isInteger_iff_written.1 h))

/-! ## Order tests -/

/-- The operators of order tests, with the signs that stand for them in selectors and conditions. -/
def orderTests : List (Operator × String) :=
  [(.greaterThan, ">"), (.lessThan, "<")]

section

variable {operator : Operator} {sign : String} (h : (operator, sign) ∈ orderTests)
include h

/-- What the two order tests have in common: one value, an integer, and the sign that stands for the
operator in selectors and conditions. -/
theorem orderTest_facts : operator.arity = .exactlyOne ∧ operator.isNumeric ∧
    operator.token = sign ∧ Draft.Sign sign.toList operator := by
  simp only [orderTests, List.mem_cons, Prod.mk.injEq, List.not_mem_nil, or_false] at h
  rcases h with ⟨rfl, rfl⟩ | ⟨rfl, rfl⟩
  · exact ⟨rfl, rfl, rfl, .greaterThan⟩
  · exact ⟨rfl, rfl, rfl, .lessThan⟩

/-- The condition of an order test holds its one value without quotes. The requirement carries that
the value is an integer, so nothing is known of how it was built. -/
theorem Clause.nrql_orderTest {r : Requirement} (hr : r.operator = operator) :
    ∃ v, r.values = [v] ∧ Literal.classify v = .number v ∧
      (ofRequirement r).nrql = r.key ++ " " ++ sign ++ " " ++ v := by
  obtain ⟨harity, hnum, htoken, -⟩ := orderTest_facts h
  rw [← hr] at harity hnum htoken
  have hvalues : r.values = [r.value harity] := Requirement.values_eq harity
  -- the value is there and it is an integer
  have hinteger : IsInteger (r.value harity) := by
    refine r.integers hnum _ ?_
    rw [hvalues]
    exact List.mem_singleton_self _
  have hbare := Literal.classify_of_isInteger hinteger
  refine ⟨_, hvalues, hbare, ?_⟩
  rw [ofRequirement_of_exactlyOne harity, hbare, ← htoken]
  rfl

/-- A key, the sign and an integer have the form of a requirement, without any blanks. -/
theorem Draft.written_orderTest {key v : String} (hkey : IsKey key.toList) {n : Int}
    (hv : WritesInt v.toList n) : Draft.Written (key ++ sign ++ v).toList ⟨key, operator, [v]⟩ := by
  obtain ⟨-, hnum, -, hsign⟩ := orderTest_facts h
  have hoperand : Draft.IsOperand operator v.toList := by
    rw [Draft.IsOperand, if_pos hnum]
    exact ⟨n, hv⟩
  have hwritten := Draft.Written.comparison hkey Text.allBlank_nil hsign Text.allBlank_nil hoperand
  rw [String.ofList_toList, String.ofList_toList] at hwritten
  simpa using hwritten

/-- Such a requirement is built exactly if the integer is one of 64 bits: the grammar leaves no
other fault. -/
theorem Requirement.exists_build_orderTest_iff {key v : String} (hkey : IsKey key.toList) {n : Int}
    (hv : WritesInt v.toList n) :
    (∃ r, build key operator [v] = .ok r) ↔ Number.WrittenInt64 v.toList := by
  obtain ⟨-, hnum, -, -⟩ := orderTest_facts h
  rw [← isInteger_iff_written]
  constructor
  · rintro ⟨r, hr⟩
    obtain ⟨-, rfl, hvalues⟩ := parts_of_build hr
    refine r.integers hnum v ?_
    rw [hvalues]
    exact mem_distinct.2 (List.mem_singleton_self v)
  · intro hinteger
    cases hbuild : build key operator [v] with
    | ok r => exact ⟨r, rfl⟩
    | error e =>
      -- a refusal would name a value that is no integer, and there is only one value
      obtain ⟨w, hw, -, -, hbad⟩ :=
        build_error_of_written (Draft.written_orderTest h hkey hv) hbuild
      rw [List.mem_singleton.1 hw] at hbad
      exact absurd hinteger hbad

end

/-- **An order test is written with a bare number.** The value of a requirement by `>` or `<` is a
numeral, so its condition holds the value without quotes. And a selector of a key, the sign and an
integer is accepted exactly if the integer is one of 64 bits; its one requirement holds the integer as
it is written. -/
theorem orderTest_bare {operator : Operator} {sign : String}
    (h : (operator, sign) ∈ orderTests) :
    (∀ key values r, Requirement.build key operator values = .ok r → ∃ v, r.values = [v] ∧
      Literal.classify v = .number v ∧
      (Clause.ofRequirement r).nrql = key ++ " " ++ sign ++ " " ++ v) ∧
    ∀ key v : String, key? key.toList = some (key.toList, []) →
      integer? v.toList = some (v.toList, []) →
      ((∃ s, Selector.parse (key ++ sign ++ v) = .ok s) ↔ Number.WrittenInt64 v.toList) ∧
      ∀ s, Selector.parse (key ++ sign ++ v) = .ok s → ∃ r, s = ⟨[r]⟩ ∧ r.key = key ∧
        r.operator = operator ∧ r.values = [v] := by
  constructor
  · intro key values r hbuild
    obtain ⟨rfl, hr, -⟩ := Requirement.parts_of_build hbuild
    exact Clause.nrql_orderTest h hr
  · intro key v hread hread'
    have hkey := key?_whole_iff.1 hread
    obtain ⟨n, hv⟩ := integer?_whole_iff.1 hread'
    -- what is accepted is what can be built from the parts
    have hparse : ∀ s, Selector.parse (key ++ sign ++ v) = .ok s ↔
        ∃ r, Requirement.build key operator [v] = .ok r ∧ s = ⟨[r]⟩ := by
      intro s
      rw [← Selector.parse_ok_iff_build (Draft.written_orderTest h hkey hv), String.ofList_toList]
    constructor
    · rw [← Requirement.exists_build_orderTest_iff h hkey hv]
      constructor
      · rintro ⟨s, hs⟩
        obtain ⟨r, hr, -⟩ := (hparse s).1 hs
        exact ⟨r, hr⟩
      · rintro ⟨r, hr⟩
        exact ⟨_, (hparse _).2 ⟨r, hr, rfl⟩⟩
    · intro s hs
      obtain ⟨r, hr, rfl⟩ := (hparse s).1 hs
      exact ⟨r, rfl, Requirement.parts_of_build hr⟩

/-- The least integer of 64 bits with a zero in front, the integer below it, and a plus sign, which
only a requirement takes. -/
theorem orderTest_bare_at_limit :
    (.lessThan, "<") ∈ orderTests ∧
      (∃ s, Selector.parse ("replicas" ++ "<" ++ "-09223372036854775808") = .ok s) ∧
      (¬ ∃ s, Selector.parse ("replicas" ++ "<" ++ "-9223372036854775809") = .ok s) ∧
      ((Requirement.build "replicas" .lessThan ["+007", "+007"]).map fun r =>
        (Clause.ofRequirement r).nrql) = .ok "replicas < +007" := by
  have h : (.lessThan, "<") ∈ orderTests := by decide
  have hkey : key? "replicas".toList = some ("replicas".toList, []) := by decide +kernel
  obtain ⟨hbare, hparse⟩ := orderTest_bare h
  have hleast := (hparse "replicas" "-09223372036854775808" hkey (by decide +kernel)).1
  have hbelow := (hparse "replicas" "-9223372036854775809" hkey (by decide +kernel)).1
  refine ⟨h, hleast.2 (Number.int64?_isSome_iff.1 (by decide +kernel)), ?_, ?_⟩
  · intro haccepted
    exact absurd (Number.int64?_isSome_iff.2 (hbelow.1 haccepted)) (by decide +kernel)
  · let r : Requirement :=
      ⟨"replicas", .lessThan, ["+007"], by decide, by decide, by decide, by decide⟩
    have hbuild : Requirement.build "replicas" .lessThan ["+007", "+007"] = .ok r :=
      Requirement.build_eq_ok_iff.2 ⟨rfl, rfl, rfl⟩
    -- the plus sign and the zeros are kept
    obtain ⟨v, hv, -, hnrql⟩ := hbare _ _ r hbuild
    rw [← List.singleton_inj.1 hv] at hnrql
    rw [hbuild]
    exact congrArg Except.ok hnrql

end LabelQuery
