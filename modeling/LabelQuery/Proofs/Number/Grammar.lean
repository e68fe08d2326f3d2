import LabelQuery.Number.Integer
import LabelQuery.Number.Numeral

/-!
# Number — the grammar of numerals

The syntax of numerals as a relation between texts and what they write, apart from any way to read
them. Letters stand for both cases; `D` and `H` are groups of decimal and of hexadecimal digits:

    group        ::=  digit ('_'? digit)*
    special      ::=  sign? ('inf' | 'infinity')  |  'nan'
    decimal      ::=  sign? (D ('.' D?)? | '.' D) ('e' sign? D)?
    hexadecimal  ::=  sign? '0x' ('_'? H ('.' H?)? | '.' H) 'p' sign? D

* `Numeral.Written` — the numeral that a text writes.
* `StartsHexadecimal` — a text begins as hexadecimal numerals do. Of the three forms only those do.
-/

namespace LabelQuery.Number

/-! ## Parts of numerals -/

/-- An optional sign, and whether it is a minus sign. -/
inductive WrittenSign : List Char → Bool → Prop where
  | none : WrittenSign [] false
  | plus : WrittenSign ['+'] false
  | minus : WrittenSign ['-'] true

/-- Digits, with single underscores between two of them, and the digits alone. -/
inductive WrittenGroup (p : Char → Bool) : List Char → List Char → Prop where
  | last {d : Char} (hd : p d) : WrittenGroup p [d] [d]
  | digit {d : Char} {text ds : List Char} (hd : p d) (h : WrittenGroup p text ds) :
      WrittenGroup p (d :: text) (d :: ds)
  | underscore {d : Char} {text ds : List Char} (hd : p d) (h : WrittenGroup p text ds) :
      WrittenGroup p (d :: '_' :: text) (d :: ds)

/-- A mantissa: a group with an optional point after it, a point and a group, or two groups with a
point between them. -/
inductive Mantissa.Written (p : Char → Bool) : List Char → Mantissa → Prop where
  | whole {text ds : List Char} (h : WrittenGroup p text ds) : Written p text ⟨ds, []⟩
  | point {text ds : List Char} (h : WrittenGroup p text ds) : Written p (text ++ ['.']) ⟨ds, []⟩
  | both {text ds text' es : List Char} (h : WrittenGroup p text ds)
      (h' : WrittenGroup p text' es) : Written p (text ++ '.' :: text') ⟨ds, es⟩
  | fraction {text' es : List Char} (h' : WrittenGroup p text' es) : Written p ('.' :: text') ⟨[], es⟩

/-- An exponent: its mark in either case, an optional sign and decimal digits. -/
inductive WrittenExponent (mark : Char) : List Char → Int → Prop where
  | intro {c : Char} {s text ds : List Char} {negative : Bool} (hc : c.toLower = mark)
      (hs : WrittenSign s negative) (h : WrittenGroup isDecimal text ds) :
      WrittenExponent mark (c :: (s ++ text)) (signed negative (ofDigits 10 ds))

/-- A word in lower case, written in any case. -/
def WrittenWord (word text : List Char) : Prop :=
  text.map Char.toLower = word

/-! ## Numerals -/

/-- The numeral that a text writes. -/
inductive Numeral.Written : List Char → Numeral → Prop where
  | infinity {s text : List Char} {negative : Bool} (hs : WrittenSign s negative)
      (h : WrittenWord "inf".toList text ∨ WrittenWord "infinity".toList text) :
      Written (s ++ text) (.infinity negative)
  | nan {text : List Char} (h : WrittenWord "nan".toList text) : Written text .nan
  | decimal {s text tail : List Char} {negative : Bool} {m : Mantissa} {e : Int}
      (hs : WrittenSign s negative) (hm : m.Written isDecimal text)
      (he : tail = [] ∧ e = 0 ∨ WrittenExponent 'e' tail e) :
      Written (s ++ (text ++ tail)) (.decimal negative m e)
  | hexadecimal {s u text tail : List Char} {x : Char} {negative : Bool} {m : Mantissa} {e : Int}
      (hs : WrittenSign s negative) (hx : x.toLower = 'x') (hu : u = [] ∨ u = ['_'] ∧ m.whole ≠ [])
      (hm : m.Written isHex text) (he : WrittenExponent 'p' tail e) :
      Written (s ++ '0' :: x :: (u ++ (text ++ tail))) (.hexadecimal negative m e)

/-- A text begins with an optional sign and `0x`, or `0X`. -/
def StartsHexadecimal (cs : List Char) : Prop :=
  ∃ s negative x rest, WrittenSign s negative ∧ x.toLower = 'x' ∧ cs = s ++ '0' :: x :: rest

end LabelQuery.Number
