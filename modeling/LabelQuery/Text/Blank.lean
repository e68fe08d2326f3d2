/-!
# Text — blanks and white space

A blank is a space, a tab, a line feed or a carriage return. Blanks may stand around every token of
a selector, and must stand between a label key and the words `in` and `notin`. White space is what
Unicode calls so; ASCII white space is the part of it that settings leave out around a value.

* `skipBlanks` drops the longest run of blanks at the start of a text.
* `blanks` splits a text into that run and what follows it; `blanks1?` asks the run to be non-empty.
* `blanks_append` — the two parts of the split make up the text.
* `trim` drops the white space at both ends of a text, `skipSpace` the ASCII white space at its start.
-/

namespace LabelQuery.Text

/-! ## Blanks -/

def isBlank (c : Char) : Bool :=
  c == ' ' || c == '\t' || c == '\n' || c == '\r'

/-- The text after the longest run of blanks at its start. -/
def skipBlanks (cs : List Char) : List Char :=
  cs.dropWhile isBlank

/-- The longest run of blanks at the start of a text, and the rest. -/
def blanks (cs : List Char) : List Char × List Char :=
  (cs.takeWhile isBlank, skipBlanks cs)

/-- The longest run of blanks at the start of a text, which must hold at least one, and the rest. -/
def blanks1? (cs : List Char) : Option (List Char × List Char) :=
  if (blanks cs).1 = [] then none else some (blanks cs)

theorem blanks_append (cs : List Char) : (blanks cs).1 ++ (blanks cs).2 = cs :=
  List.takeWhile_append_dropWhile

theorem skipBlanks_length_le (cs : List Char) : (skipBlanks cs).length ≤ cs.length :=
  (List.dropWhile_sublist isBlank).length_le

/-! ## White space -/

/-- ASCII white space: space, tab, line feed, form feed and carriage return. -/
def isAsciiSpace (c : Char) : Bool :=
  c == ' ' || c == '\t' || c == '\n' || c == '\x0c' || c == '\r'

/-- The characters with the Unicode property White_Space. -/
def isSpace (c : Char) : Bool :=
  let n := c.toNat
  (9 ≤ n && n ≤ 13) || n == 0x20 || n == 0x85 || n == 0xA0 || n == 0x1680
    || (0x2000 ≤ n && n ≤ 0x200A) || n == 0x2028 || n == 0x2029 || n == 0x202F || n == 0x205F
    || n == 0x3000

def trimEnd (cs : List Char) : List Char :=
  (cs.reverse.dropWhile isSpace).reverse

/-- A text without the white space at both ends. -/
def trim (cs : List Char) : List Char :=
  trimEnd (cs.dropWhile isSpace)

/-- A text without the ASCII white space at its start. -/
def skipSpace (cs : List Char) : List Char :=
  cs.dropWhile isAsciiSpace

theorem isSpace_of_isAsciiSpace {c : Char} (h : isAsciiSpace c) : isSpace c := by
  simp only [isAsciiSpace, Bool.or_eq_true, beq_iff_eq] at h
  rcases h with (((rfl | rfl) | rfl) | rfl) | rfl <;> rfl

theorem skipSpace_length_le (cs : List Char) : (skipSpace cs).length ≤ cs.length :=
  (List.dropWhile_sublist _).length_le

end LabelQuery.Text
