/-!
# Number — digits and whole numbers

Runs of digits, the numbers that they write, and whole numbers of 64 bits.

* `ofDigits base` reads digits, most significant first.
* `group?` reads a digit group: digits, with single underscores allowed between two digits. It
  answers with the digits alone.
* `sign` reads an optional sign.
* `int? cs` — the whole number that `cs` writes as an optional sign and decimal digits.
* `int64? cs` — the same, in the range of signed 64-bit integers.
* `nat64? cs` — an optional plus sign and decimal digits, in the range of unsigned 64-bit integers.
-/

namespace LabelQuery.Number

/-! ## Digits -/

def isDecimal (c : Char) : Bool :=
  c.isDigit

def isHex (c : Char) : Bool :=
  c.isDigit || ('a' ≤ c && c ≤ 'f') || ('A' ≤ c && c ≤ 'F')

/-- The value of a hexadecimal, and so also of a decimal, digit. -/
def digitValue (c : Char) : Nat :=
  if c.isDigit then c.toNat - '0'.toNat
  else if 'a' ≤ c then c.toNat - 'a'.toNat + 10
  else c.toNat - 'A'.toNat + 10

/-- The number that digits write in a base, most significant digit first. -/
def ofDigits (base : Nat) (ds : List Char) : Nat :=
  ds.foldl (fun n d => base * n + digitValue d) 0

/-! ## Digit groups -/

/-- The digits that continue a group, where the last character read was a digit, and the rest. An
underscore belongs to the group if a digit follows it. -/
def moreDigits (p : Char → Bool) : List Char → List Char × List Char
  | [] => ([], [])
  | '_' :: d :: cs =>
    if p d then (d :: (moreDigits p cs).1, (moreDigits p cs).2) else ([], '_' :: d :: cs)
  | d :: cs =>
    if p d then (d :: (moreDigits p cs).1, (moreDigits p cs).2) else ([], d :: cs)

/-- The digit group at the start of a text: its digits without the underscores, and the rest. -/
def group? (p : Char → Bool) : List Char → Option (List Char × List Char)
  | [] => none
  | d :: cs => if p d then some (d :: (moreDigits p cs).1, (moreDigits p cs).2) else none

/-! ## Signs -/

/-- Whether a minus sign stands at the start of a text, and the text after an optional sign. -/
def sign : List Char → Bool × List Char
  | '-' :: cs => (true, cs)
  | '+' :: cs => (false, cs)
  | cs => (false, cs)

/-! ## Whole numbers -/

def InInt64 (n : Int) : Prop :=
  -Int.pow 2 63 ≤ n ∧ n < Int.pow 2 63

instance : DecidablePred InInt64 := fun _ => inferInstanceAs (Decidable (_ ∧ _))

def IsDigits (cs : List Char) : Prop :=
  cs ≠ [] ∧ ∀ c ∈ cs, isDecimal c

instance : DecidablePred IsDigits := fun cs =>
  @instDecidableAnd _ _ inferInstance (List.decidableBAll _ cs)

def signed (negative : Bool) (n : Nat) : Int :=
  if negative then -n else n

/-- The whole number that a text writes: an optional sign and decimal digits. -/
def int? (cs : List Char) : Option Int :=
  if IsDigits (sign cs).2 then some (signed (sign cs).1 (ofDigits 10 (sign cs).2)) else none

/-- The whole number that a text writes, if it is a signed 64-bit integer. -/
def int64? (cs : List Char) : Option Int :=
  (int? cs).filter fun n => decide (InInt64 n)

/-- The whole number that a text without a minus sign writes, if it is an unsigned 64-bit
integer. -/
def nat64? (cs : List Char) : Option Nat :=
  if (sign cs).1 then none
  else (int? cs).map Int.toNat |>.filter (· < Nat.pow 2 64)

end LabelQuery.Number
