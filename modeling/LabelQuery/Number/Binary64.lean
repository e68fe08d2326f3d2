/-!
# Number — binary64

The values of binary64, rounding to the nearest of them, and their shortest decimal texts. A value is
a signed magnitude or not a number. Every finite magnitude is a whole number of units of
`2 ^ -1074`, so it is held as that number of units.

* `Magnitude.nearest num den` — the magnitude nearest to `num / den` units, ties to even. From half
  a step above the largest finite value on, it is infinite.
* `Magnitude.ofDecimal m e` — the magnitude nearest to `m * 10 ^ e`.
* `Magnitude.appendHex`, `Magnitude.scale` — the two steps by which a hexadecimal numeral is
  evaluated, each rounded.
* `Binary64.bits?` — the interchange format: one sign bit, eleven bits of exponent, 52 bits of
  fraction.
* `Binary64.text` — the decimal number with the fewest digits that rounds to the value; of several
  with as few digits, the nearest to the value, and of two equally near, the greater. It is written
  without an exponent, and without a point where it is a whole number.
-/

namespace LabelQuery.Number

/-! ## Magnitudes -/

/-- A non-negative value of binary64. -/
inductive Magnitude
  /-- A number of units of `2 ^ -1074`. -/
  | finite (units : Nat)
  /-- Beyond every finite value. -/
  | infinite
  deriving DecidableEq, Repr

/-- One, in units of `2 ^ -1074`. -/
def one : Nat := Nat.pow 2 1074

/-- The least power of two above every finite value, `2 ^ 1024`, in units of `2 ^ -1074`. -/
def overflow : Nat := Nat.pow 2 2098

/-- The whole number nearest to `num / den`; of two equally near, the even one. -/
def roundDiv (num den : Nat) : Nat :=
  if 2 * (num % den) < den ∨ 2 * (num % den) = den ∧ num / den % 2 = 0 then num / den
  else num / den + 1

/-- The distance, in units, between neighbouring values near `units`: values have 53 significant
bits, and never lie closer than one unit. -/
def step (units : Nat) : Nat :=
  Nat.pow 2 (units.log2 - 52)

namespace Magnitude

def isFinite : Magnitude → Bool
  | finite _ => true
  | infinite => false

/-- The magnitude of a number of units that has at most 53 significant bits. -/
def ofUnits (units : Nat) : Magnitude :=
  if units < overflow then finite units else infinite

/-- The magnitude nearest to `num / den` units; of two equally near, the even one. -/
def nearest (num den : Nat) : Magnitude :=
  ofUnits (roundDiv num (den * step (num / den)) * step (num / den))

/-- The magnitude nearest to `m * 10 ^ e`. Powers of ten that are out of all proportion to `m` are
not formed: the result is infinite or zero. -/
def ofDecimal (m : Nat) (e : Int) : Magnitude :=
  if m = 0 then finite 0
  else if 400 < e then infinite
  else if 0 ≤ e then nearest (m * Nat.pow 10 e.toNat * one) 1
  else if (m * one).log2 + 2 < 3 * (-e).toNat then finite 0
  else nearest (m * one) (Nat.pow 10 (-e).toNat)

/-- Sixteen times a magnitude plus a digit, rounded. -/
def appendHex : Magnitude → Nat → Magnitude
  | infinite, _ => infinite
  | finite units, d => nearest (16 * units + d * one) 1

/-- A magnitude times a power of two, rounded. The power is a binary64 value itself: from
`2 ^ 1024` on it is infinite, and below `2 ^ -1023` it is zero. A product of infinity and zero
counts as infinite. -/
def scale : Magnitude → Int → Magnitude
  | infinite, _ => infinite
  | finite units, e =>
    if 1024 ≤ e then infinite
    else if e ≤ -1024 then finite 0
    else if 0 ≤ e then nearest (units * Nat.pow 2 e.toNat) 1
    else nearest units (Nat.pow 2 (-e).toNat)

end Magnitude

/-! ## Values -/

/-- A value of binary64. Zero has a sign too. -/
inductive Binary64
  | signed (negative : Bool) (magnitude : Magnitude)
  | nan
  deriving DecidableEq, Repr

namespace Binary64

def isFinite : Binary64 → Bool
  | signed _ magnitude => magnitude.isFinite
  | nan => false

/-- Exponent and fraction of a magnitude. Each doubling of the step adds one to the exponent, and
the leading bit of a normal fraction is left out by adding it to the exponent. -/
def magnitudeBits : Magnitude → Nat
  | .finite units => (units.log2 - 52) * Nat.pow 2 52 + units / step units
  | .infinite => 2047 * Nat.pow 2 52

/-- The 64 bits of a value that is a number, as a natural number. -/
def bits? : Binary64 → Option Nat
  | signed negative magnitude =>
    some ((if negative then Nat.pow 2 63 else 0) + magnitudeBits magnitude)
  | nan => none

end Binary64

/-! ## Shortest decimal texts

`interval units` holds the numbers that round to a value, as bounds in quarters of a unit, and
`shortest units` is the shortest decimal number `d * 10 ^ k` in it. -/

/-- The numbers that round to a value: from `low` to `high`, in quarters of a unit. The bounds
themselves round to the value if its last significant bit is zero. -/
structure Interval where
  low : Nat
  high : Nat
  closed : Bool

/-- The interval of a finite value. Below a power of two the values lie twice as close. -/
def interval (units : Nat) : Interval where
  low :=
    4 * units - (if units = Nat.pow 2 52 * step units ∧ 1 < step units then 1 else 2) * step units
  high := 4 * units + 2 * step units
  closed := units / step units % 2 = 0

/-- `num / den` quarters of a unit lie in an interval. -/
def Interval.contains (i : Interval) (num den : Nat) : Bool :=
  if i.closed then i.low * den ≤ num && num ≤ i.high * den
  else i.low * den < num && num < i.high * den

/-- The multiple of `10 ^ k` that is nearest to a value among those that round to it, as the factor
of `10 ^ k`. -/
def multiple? (units : Nat) (k : Int) : Option Nat :=
  let quarters := 4 * units
  let up := 4 * one * Nat.pow 10 k.toNat
  let den := Nat.pow 10 (-k).toNat
  let d := quarters * den / up
  let inside := (interval units).contains
  let below := inside (d * up) den
  let above := inside ((d + 1) * up) den
  if below && (!above || 2 * (quarters * den - d * up) < up) then some d
  else if above then some (d + 1)
  else none

/-- The shortest decimal number `d * 10 ^ k` that rounds to a value. Fewest digits is the greatest
`k`; none above 308 is of use, and at -324 a multiple is always near enough. -/
def shortest (units : Nat) : Nat × Int :=
  ((List.range 633).findSome? fun (n : Nat) =>
    (multiple? units (308 - n)).map fun d => (d, (308 - n : Int))).getD (0, 0)

def positional (d : Nat) (k : Int) : String :=
  let digits := Nat.toDigits 10 d
  if 0 ≤ k then String.ofList (digits ++ List.replicate k.toNat '0')
  else
    let places := (-k).toNat
    let padded := List.replicate (places + 1 - digits.length) '0' ++ digits
    String.ofList (padded.take (padded.length - places) ++ '.' :: padded.drop (padded.length - places))

def Magnitude.text : Magnitude → String
  | .finite 0 => "0"
  | .finite units => positional (shortest units).1 (shortest units).2
  | .infinite => "inf"

def Binary64.text : Binary64 → String
  | .signed negative magnitude => (if negative then "-" else "") ++ magnitude.text
  | .nan => "NaN"

end LabelQuery.Number
