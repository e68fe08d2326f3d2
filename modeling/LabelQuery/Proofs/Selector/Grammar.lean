import LabelQuery.Proofs.Label.Reader
import LabelQuery.Selector.Basic
import LabelQuery.Selector.Parser

/-!
# Selector — the grammar

The syntax of selectors as a relation between texts and what they ask for, apart from any way to
read them. `W` is a run of blanks:

    selector     ::=  W  |  W requirement (W ',' W requirement)* W
    requirement  ::=  '!' W key
                   |  key
                   |  key W ('=' | '==' | '!=') W value
                   |  key W ('>' | '<') W integer
                   |  key W ('in' | 'notin') W '(' W value (W ',' W value)* W ')'

In the last form the first `W` is not empty. An integer is in the range of 64 bits, and the values of
a set count once each, where they stand first.

* `Draft.Written` — a requirement as written: integers of any size, repeated values kept.
* `Requirement.Written`, `Selector.Written` — the requirement, and the selector, that a text writes.
-/

namespace LabelQuery

open Text Label

/-! ## Requirements as written -/

namespace Draft

/-- The signs of comparisons. -/
inductive Sign : List Char → Operator → Prop where
  | equals : Sign ['='] .equals
  | doubleEquals : Sign ['=', '='] .doubleEquals
  | notEquals : Sign ['!', '='] .notEquals
  | greaterThan : Sign ['>'] .greaterThan
  | lessThan : Sign ['<'] .lessThan

/-- What an operator is compared with: an integer for `>` and `<`, a label value for the others. -/
def IsOperand (operator : Operator) (v : List Char) : Prop :=
  if operator.isNumeric then ∃ n, WritesInt v n else IsValue v

/-- The words of set tests. -/
inductive Word : List Char → Operator → Prop where
  | oneOf : Word ['i', 'n'] .oneOf
  | noneOf : Word ['n', 'o', 't', 'i', 'n'] .noneOf

/-- Label values between commas, at least one. -/
inductive WrittenValues : List Char → List String → Prop where
  | one {v : List Char} (hv : IsValue v) : WrittenValues v [String.ofList v]
  | more {v w₁ w₂ tail : List Char} {values : List String} (hv : IsValue v) (hw₁ : AllBlank w₁)
      (hw₂ : AllBlank w₂) (htail : WrittenValues tail values) :
      WrittenValues (v ++ w₁ ++ ',' :: (w₂ ++ tail)) (String.ofList v :: values)

/-- The forms of a requirement. -/
inductive Written : List Char → Draft → Prop where
  | absent {w key : List Char} (hw : AllBlank w) (hkey : IsKey key) :
      Written ('!' :: (w ++ key)) ⟨String.ofList key, .absent, []⟩
  | present {key : List Char} (hkey : IsKey key) :
      Written key ⟨String.ofList key, .present, []⟩
  | comparison {key w₁ sign w₂ v : List Char} {operator : Operator} (hkey : IsKey key)
      (hw₁ : AllBlank w₁) (hsign : Sign sign operator) (hw₂ : AllBlank w₂)
      (hv : IsOperand operator v) :
      Written (key ++ w₁ ++ sign ++ w₂ ++ v) ⟨String.ofList key, operator, [String.ofList v]⟩
  | set {key w₁ word w₂ w₃ body w₄ : List Char} {operator : Operator} {values : List String}
      (hkey : IsKey key) (hw₁ : AllBlank w₁) (hne : w₁ ≠ []) (hword : Word word operator)
      (hw₂ : AllBlank w₂) (hw₃ : AllBlank w₃) (hbody : WrittenValues body values)
      (hw₄ : AllBlank w₄) :
      Written (key ++ w₁ ++ word ++ w₂ ++ '(' :: (w₃ ++ body ++ w₄ ++ [')']))
        ⟨String.ofList key, operator, values⟩

/-- The integers of a requirement are integers of 64 bits. -/
def InRange (d : Draft) : Prop :=
  d.operator.isNumeric → ∀ v ∈ d.values, ∃ n, WritesInt v.toList n ∧ Number.InInt64 n

end Draft

/-! ## Requirements and selectors -/

/-- A text writes a requirement, whose values are those written, repeats dropped. -/
def Requirement.Written (cs : List Char) (r : Requirement) : Prop :=
  ∃ d : Draft, d.Written cs ∧ d.InRange ∧
    r.key = d.key ∧ r.operator = d.operator ∧ r.values = d.values.eraseDups

namespace Selector

/-- Requirements between commas, at least one. -/
inductive WrittenList : List Char → List Requirement → Prop where
  | one {cs : List Char} {r : Requirement} (hr : r.Written cs) : WrittenList cs [r]
  | more {cs w₁ w₂ tail : List Char} {r : Requirement} {rs : List Requirement}
      (hr : r.Written cs) (hw₁ : AllBlank w₁) (hw₂ : AllBlank w₂) (htail : WrittenList tail rs) :
      WrittenList (cs ++ w₁ ++ ',' :: (w₂ ++ tail)) (r :: rs)

/-- A text writes a selector. -/
inductive Written : List Char → Selector → Prop where
  | nothing {w : List Char} (hw : AllBlank w) : Written w everything
  | listed {w₁ body w₂ : List Char} {rs : List Requirement} (hw₁ : AllBlank w₁)
      (hbody : WrittenList body rs) (hw₂ : AllBlank w₂) : Written (w₁ ++ body ++ w₂) ⟨rs⟩

end Selector

/-! ## How a requirement begins -/

/-- The four blanks, so that a fact about blanks is checked character by character. -/
theorem Text.isBlank_cases {c : Char} (h : isBlank c) :
    c = ' ' ∨ c = '\t' ∨ c = '\n' ∨ c = '\r' := by
  simpa [isBlank, or_assoc] using h

/-- No blank stands in a label key, so the blanks around a key are not read as part of it. -/
theorem Label.isKeyChar_of_isBlank {c : Char} (h : isBlank c) : isKeyChar c = false := by
  rcases isBlank_cases h with rfl | rfl | rfl | rfl <;> decide

/-- A key begins with no blank: the blanks skipped before a key end exactly where it begins,
whatever follows it. -/
theorem Label.IsKey.stops_isBlank {key : List Char} (h : IsKey key) (rest : List Char) :
    Stops isBlank (key ++ rest) :=
  stops_word_append h.ne_nil h.chars (fun _ => isKeyChar_of_isBlank) rest

/-- A requirement begins with no blank. One case for each form: the negated one begins with its
exclamation mark, and the others with a key. -/
theorem Draft.Written.stops_isBlank {cs : List Char} {d : Draft} (h : d.Written cs)
    (rest : List Char) : Stops isBlank (cs ++ rest) := by
  -- what comes after the key has no say, so it is the rest of a text that begins with a key
  cases h with
  | absent => rw [List.cons_append, stops_cons]; decide
  | present hkey => exact hkey.stops_isBlank rest
  | comparison hkey =>
    simp only [List.append_assoc]
    exact hkey.stops_isBlank _
  | set hkey =>
    simp only [List.append_assoc]
    exact hkey.stops_isBlank _

end LabelQuery
