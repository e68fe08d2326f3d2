import LabelQuery.Number.Integer
import LabelQuery.Number.Numeral
import LabelQuery.Settings.Document.Line
import LabelQuery.Settings.Document.Moment
import LabelQuery.Settings.Document.Multiline
import LabelQuery.Settings.Quoted
import LabelQuery.Settings.Value

/-!
# Settings — tokens of a document

* `path?` — a key, or several with dots between them.
* `scalar?` — a text in double or single quotes, a truth value, a number, a date or a time.
-/

namespace LabelQuery.Settings.Document

open Number

/-! ## Texts and keys -/

/-- A text up to its closing single quote, the opening one having been read, and what follows it.
Such a text has no escapes. -/
def literal? : List Char → Option (List Char × List Char)
  | [] => none
  | '\'' :: cs => some ([], cs)
  | c :: cs =>
    if isControl c then none
    else (literal? cs).map fun (text, rest) => (c :: text, rest)

theorem literal?_length_lt {cs text rest : List Char} (h : literal? cs = some (text, rest)) :
    rest.length < cs.length := by
  fun_induction literal? cs generalizing text rest with
  | case1 => simp at h
  | case2 => cases h; simp
  | case3 => simp at h
  | case4 c cs _ _ ih =>
    obtain ⟨⟨more, _⟩, hmore, heq⟩ := Option.map_eq_some_iff.1 h
    cases heq
    have := ih hmore
    simp only [List.length_cons]
    omega

/-- A part of a dotted key at the start of a text: bare, or in double or single quotes. -/
def part? : List Char → Option (String × List Char)
  | '"' :: cs => (quoted? cs).map fun (key, rest) => (String.ofList key, rest)
  | '\'' :: cs => (literal? cs).map fun (key, rest) => (String.ofList key, rest)
  | cs => bareKey? cs

theorem part?_length_lt {cs rest : List Char} {key : String} (h : part? cs = some (key, rest)) :
    rest.length < cs.length := by
  unfold part? at h
  split at h
  · obtain ⟨_, hkey, heq⟩ := Option.map_eq_some_iff.1 h
    cases heq
    have := quoted?_length_lt hkey
    simp only [List.length_cons]
    omega
  · obtain ⟨_, hkey, heq⟩ := Option.map_eq_some_iff.1 h
    cases heq
    have := literal?_length_lt hkey
    simp only [List.length_cons]
    omega
  · exact bareKey?_length_lt h

/-- The parts of a dotted key at the start of a text, and the rest without the gap after it. -/
def parts? (cs : List Char) : Option (List String × List Char) :=
  match _ : part? cs with
  | none => none
  | some (key, mid) =>
    match _ : skipGap mid with
    | '.' :: tail => (parts? (skipGap tail)).map fun (path, rest) => (key :: path, rest)
    | rest => some ([key], rest)
termination_by cs.length
decreasing_by
  have h₁ := part?_length_lt ‹part? cs = some (key, mid)›
  have h₂ := skipGap_length_le mid
  have h₃ := skipGap_length_le tail
  rw [‹skipGap mid = '.' :: tail›, List.length_cons] at h₂
  omega

/-- How many arrays and tables in braces may stand within one another, and how many parts a dotted
key may have. -/
def maxDepth : Nat := 79

/-- A dotted key at the start of a text, and the rest without the gap after it. -/
def path? (cs : List Char) : Option (List String × List Char) :=
  match parts? cs with
  | some (path, rest) => if path.length ≤ maxDepth then some (path, rest) else none
  | none => none

theorem parts?_length_lt {cs rest : List Char} {path : List String}
    (h : parts? cs = some (path, rest)) : rest.length < cs.length := by
  fun_induction parts? cs generalizing path rest with
  | case1 => simp at h
  | case2 cs key mid hkey tail hgap ih =>
    obtain ⟨⟨_, _⟩, hmore, heq⟩ := Option.map_eq_some_iff.1 h
    cases heq
    have h₀ := ih hmore
    have h₁ := part?_length_lt hkey
    have h₂ := skipGap_length_le mid
    have h₃ := skipGap_length_le tail
    rw [hgap, List.length_cons] at h₂
    omega
  | case3 cs key mid hkey =>
    cases h
    have h₁ := part?_length_lt hkey
    have h₂ := skipGap_length_le mid
    omega

theorem path?_length_lt {cs rest : List Char} {path : List String}
    (h : path? cs = some (path, rest)) : rest.length < cs.length := by
  unfold path? at h
  split at h
  · next hparts =>
    split at h <;> cases h
    exact parts?_length_lt hparts
  · cases h

/-! ## Words -/

def isWordChar (c : Char) : Bool :=
  c.isAlphanum || c == '_' || c == '+' || c == '-' || c == '.'

/-- Digits of a decimal number that start with no zero, one digit apart. -/
def hasLeadingZero (ds : List Char) : Bool :=
  ds.head? == some '0' && 1 < ds.length

def basedInteger? (base : Nat) (p : Char → Bool) (cs : List Char) : Option Int :=
  match group? p cs with
  | some (ds, []) => some (ofDigits base ds)
  | _ => none

def integer? (cs : List Char) : Option Int :=
  match cs with
  | '0' :: 'x' :: ds => basedInteger? 16 isHex ds
  | '0' :: 'o' :: ds => basedInteger? 8 (fun c => '0' ≤ c && c ≤ '7') ds
  | '0' :: 'b' :: ds => basedInteger? 2 (fun c => c == '0' || c == '1') ds
  | cs =>
    match group? isDecimal (sign cs).2 with
    | some (ds, []) =>
      if hasLeadingZero ds then none else some (signed (sign cs).1 (ofDigits 10 ds))
    | _ => none

/-- A number with a point or an exponent. Digits stand on both sides of the point. One that is
positive and too large is none. -/
def float? (cs : List Char) : Option Binary64 :=
  match Numeral.decimal? cs with
  | some (.decimal negative m e, []) =>
    let value := (Numeral.decimal negative m e).value
    if m.whole = [] ∨ hasLeadingZero m.whole ∨ ('.' ∈ cs ∧ m.fraction = [])
      ∨ value = .signed false .infinite then none
    else some value
  | _ => none

def special? (cs : List Char) : Option Binary64 :=
  if (sign cs).2 = "inf".toList then some (.signed (sign cs).1 .infinite)
  else if (sign cs).2 = "nan".toList then some .nan
  else none

def wordValue? (cs : List Char) : Option Value :=
  if cs = "true".toList then some (.bool true)
  else if cs = "false".toList then some (.bool false)
  else
    match integer? cs with
    | some n => if InInt64 n then some (.integer n) else none
    | none => ((float? cs).or (special? cs)).map .float

/-- The key of the table that a moment is read as. -/
def momentKey : String :=
  "$__toml_private_datetime"

/-- A moment as a value: a table that holds its text. -/
def Moment.toValue (m : Moment) : Value :=
  .table [(momentKey, .text m.text)]

/-- A moment, a truth value or a number at the start of a text. -/
def word? (cs : List Char) : Option (Value × List Char) :=
  match moment? cs with
  | some (m, rest) => some (m.toValue, rest)
  | none => (wordValue? (cs.takeWhile isWordChar)).map fun value => (value, cs.dropWhile isWordChar)

def text? : List Char → Option (List Char × List Char)
  | '"' :: '"' :: '"' :: cs => multiline? '"' cs
  | '\'' :: '\'' :: '\'' :: cs => multiline? '\'' cs
  | '"' :: cs => quoted? cs
  | '\'' :: cs => literal? cs
  | _ => none

/-- A value that holds no others, at the start of a text. -/
def scalar? (cs : List Char) : Option (Value × List Char) :=
  match text? cs with
  | some (text, rest) => some (.text (String.ofList text), rest)
  | none => word? cs

theorem text?_length_le {cs text rest : List Char} (h : text? cs = some (text, rest)) :
    rest.length ≤ cs.length := by
  unfold text? at h
  split at h
  · have := multiline?_length_le h
    simp only [List.length_cons]
    omega
  · have := multiline?_length_le h
    simp only [List.length_cons]
    omega
  · have := quoted?_length_lt h
    simp only [List.length_cons]
    omega
  · have := literal?_length_lt h
    simp only [List.length_cons]
    omega
  · cases h

theorem scalar?_length_le {cs rest : List Char} {v : Value} (h : scalar? cs = some (v, rest)) :
    rest.length ≤ cs.length := by
  unfold scalar? at h
  split at h
  · next htext =>
    cases h
    exact text?_length_le htext
  · unfold word? at h
    split at h
    · next hmoment =>
      cases h
      exact moment?_length_le hmoment
    · obtain ⟨_, _, heq⟩ := Option.map_eq_some_iff.1 h
      cases heq
      exact (List.dropWhile_sublist _).length_le

end LabelQuery.Settings.Document
