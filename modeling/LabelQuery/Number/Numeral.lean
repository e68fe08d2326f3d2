import LabelQuery.Number.Binary64
import LabelQuery.Number.Integer
import LabelQuery.Text.Word

/-!
# Number — numerals

The numerals that a condition may hold without quotes.

* Special: `inf` or `infinity` with an optional sign, `nan` without one, in any case.
* Decimal: an optional sign, a mantissa and an optional exponent after `e`.
* Hexadecimal: an optional sign, `0x`, a mantissa and an exponent of two after `p`.

A mantissa has digits before or after an optional point, or both. Between two digits, and between
`0x` and a digit, an underscore may stand; it counts for nothing.

* `Numeral.value` — the binary64 value of a numeral.
* `Numeral.read?` — the numeral at the start of a text. One that is too large for binary64 is none:
  a hexadecimal one gives way to the zero it starts with, a decimal one to nothing.
* `binary64?` — its value.
* `isNumeric` — a whole text is a numeral.
-/

namespace LabelQuery.Number

open Text

/-! ## Numerals and their values -/

/-- The digits of a numeral on both sides of its point. -/
structure Mantissa where
  whole : List Char
  fraction : List Char
  deriving DecidableEq, Repr

def Mantissa.digits (m : Mantissa) : List Char :=
  m.whole ++ m.fraction

/-- A numeral, without what counts for nothing in it. -/
inductive Numeral
  | infinity (negative : Bool)
  | nan
  | decimal (negative : Bool) (mantissa : Mantissa) (exponent : Int)
  | hexadecimal (negative : Bool) (mantissa : Mantissa) (exponent : Int)
  deriving DecidableEq, Repr

/-- An integer held within the range of 32 bits. -/
def saturate (n : Int) : Int :=
  max (-Int.pow 2 31) (min n (Int.pow 2 31 - 1))

/-- The magnitude of a decimal numeral: the value that is written, rounded once. -/
def decimalMagnitude (m : Mantissa) (exponent : Int) : Magnitude :=
  .ofDecimal (ofDigits 10 m.digits) (exponent - m.fraction.length)

/-- The magnitude of a row of hexadecimal digits, taken in one after another with a rounding at
each. -/
def hexMantissa (ds : List Char) : Magnitude :=
  ds.foldl (fun acc d => Magnitude.appendHex acc (digitValue d)) (Magnitude.finite 0)

/-- The exponent of two that goes with a mantissa taken as a whole number. The exponent is held
within 32 bits before and after the places of the fraction are taken off. -/
def hexScale (m : Mantissa) (exponent : Int) : Int :=
  saturate (saturate exponent - saturate (4 * saturate m.fraction.length))

/-- The magnitude of a hexadecimal numeral: the mantissa as a whole number, times a power of two.
A zero mantissa is zero whatever the exponent. -/
def hexMagnitude (m : Mantissa) (exponent : Int) : Magnitude :=
  if hexMantissa m.digits = .finite 0 then .finite 0
  else (hexMantissa m.digits).scale (hexScale m exponent)

namespace Numeral

def value : Numeral → Binary64
  | infinity negative => .signed negative .infinite
  | nan => .nan
  | decimal negative m e => .signed negative (decimalMagnitude m e)
  | hexadecimal negative m e => .signed negative (hexMagnitude m e)

def inRange (n : Numeral) : Bool :=
  n.value.isFinite

/-! ## Reading -/

/-- The text after one character that is read without regard to case. -/
def afterMark? (mark : Char) (cs : List Char) : Option (List Char) :=
  afterWord? [mark] cs

/-- A special numeral at the start of a text; of two that fit, the longer. -/
def special? (cs : List Char) : Option (Numeral × List Char) :=
  let tail := (sign cs).2
  let infinity := ((afterWord? "infinity".toList tail).or (afterWord? "inf".toList tail)).map
    fun rest => (Numeral.infinity (sign cs).1, rest)
  infinity.or ((afterWord? "nan".toList cs).map fun rest => (.nan, rest))

/-- The digit group at the start of a text, or no digits if there is none. -/
def optionalGroup (p : Char → Bool) (cs : List Char) : List Char × List Char :=
  (group? p cs).getD ([], cs)

/-- A mantissa at the start of a text; it needs a digit on one side of the point. -/
def mantissa? (p : Char → Bool) (cs : List Char) : Option (Mantissa × List Char) :=
  let (whole, rest) := optionalGroup p cs
  let (fraction, rest) := match rest with
    | '.' :: rest => optionalGroup p rest
    | rest => ([], rest)
  if whole = [] ∧ fraction = [] then none else some (⟨whole, fraction⟩, rest)

/-- An exponent at the start of a text: its mark, an optional sign and decimal digits. -/
def exponent? (mark : Char) (cs : List Char) : Option (Int × List Char) := do
  let cs ← afterMark? mark cs
  let (ds, rest) ← group? isDecimal (sign cs).2
  let n : Int := ofDigits 10 ds
  return (if (sign cs).1 then -n else n, rest)

/-- A decimal numeral at the start of a text, in range or not. -/
def decimal? (cs : List Char) : Option (Numeral × List Char) := do
  let (m, rest) ← mantissa? isDecimal (sign cs).2
  let (e, rest) := (exponent? 'e' rest).getD (0, rest)
  return (.decimal (sign cs).1 m e, rest)

/-- The text after an underscore that a digit follows, or the whole text. -/
def skipUnderscore (p : Char → Bool) : List Char → List Char
  | '_' :: d :: cs => if p d then d :: cs else '_' :: d :: cs
  | cs => cs

/-- A hexadecimal numeral at the start of a text, in range or not. -/
def hexadecimal? (cs : List Char) : Option (Numeral × List Char) := do
  let rest ← afterWord? "0x".toList (sign cs).2
  let (m, rest) ← mantissa? isHex (skipUnderscore isHex rest)
  let (e, rest) ← exponent? 'p' rest
  return (.hexadecimal (sign cs).1 m e, rest)

def read? (cs : List Char) : Option (Numeral × List Char) :=
  let fits (found : Numeral × List Char) : Bool := found.1.inRange
  (special? cs).or (((hexadecimal? cs).filter fits).or ((decimal? cs).filter fits))

end Numeral

/-- The value of the numeral at the start of a text, and the text after it. -/
def binary64? (cs : List Char) : Option (Binary64 × List Char) :=
  (Numeral.read? cs).map fun (n, rest) => (n.value, rest)

/-- A whole text is a numeral. -/
def isNumeric (cs : List Char) : Bool :=
  match Numeral.read? cs with
  | some (_, []) => true
  | _ => false

end LabelQuery.Number
