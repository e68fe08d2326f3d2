import LabelQuery.Label.Reader
import LabelQuery.Selector.Basic
import LabelQuery.Text.Blank
import LabelQuery.Text.Position

/-!
# Selector — parsing

How a text is read as a requirement, and as a selector.

* `Draft.written?` — a requirement as written: `!key`, or a key with a comparison, a set or nothing
  after it. What follows a key is taken if it makes a comparison or a set; if not, the requirement
  ends with the key, and asks for its presence.
* `Requirement.read` — the requirement that is written there, if it makes sense.
* `Requirement.read_length_lt` — reading a requirement leaves less text.
* `Selector.read` — the selector at the start of a text.
* `Selector.parse` — the selector that a whole text writes, or the byte at which reading stopped.

A selector is written as requirements between commas, with blanks anywhere around them. Reading
takes the longest sequence of requirements: a comma that no requirement follows is left over, and so
is what follows it. A requirement that is written but makes no sense refuses the selector.
-/

namespace LabelQuery

open Text Label

/-! ## One requirement -/

/-- A requirement as it is written, before it is known to make sense. -/
structure Draft where
  key : String
  operator : Operator
  /-- What is written for values, repeats included. -/
  values : List String
  deriving DecidableEq, Repr

namespace Draft

/-! ### What follows a key -/

/-- The sign of a comparison at the start of a text; of two that fit, the longer. -/
def sign? : List Char → Option (Operator × List Char)
  | '=' :: '=' :: cs => some (.doubleEquals, cs)
  | '!' :: '=' :: cs => some (.notEquals, cs)
  | '=' :: cs => some (.equals, cs)
  | '>' :: cs => some (.greaterThan, cs)
  | '<' :: cs => some (.lessThan, cs)
  | _ => none

/-- What an operator is compared with, at the start of a text: an integer or a label value. -/
def operand? (operator : Operator) (cs : List Char) : Option (List Char × List Char) :=
  if operator.isNumeric then integer? cs else value? cs

/-- A comparison: a sign and what it compares with. -/
def comparison? (cs : List Char) : Option ((Operator × List String) × List Char) := do
  let (operator, cs) ← sign? (skipBlanks cs)
  let (value, cs) ← operand? operator (skipBlanks cs)
  return ((operator, [String.ofList value]), cs)

/-- The word of a set test at the start of a text. -/
def word? : List Char → Option (Operator × List Char)
  | 'n' :: 'o' :: 't' :: 'i' :: 'n' :: cs => some (.noneOf, cs)
  | 'i' :: 'n' :: cs => some (.oneOf, cs)
  | _ => none

/-- Label values between commas, up to and with the closing parenthesis. -/
def values? (cs : List Char) : Option (List String × List Char) :=
  match _ : value? (skipBlanks cs) with
  | none => none
  | some (value, mid) =>
    match _ : skipBlanks mid with
    | ',' :: rest => (values? rest).map fun (values, rest) => (String.ofList value :: values, rest)
    | ')' :: rest => some ([String.ofList value], rest)
    | _ => none
termination_by cs.length
decreasing_by
  -- a value may be empty, so it is the comma that makes the text shorter
  have h₁ := value?_length_le ‹value? (skipBlanks cs) = some (value, mid)›
  have h₂ := skipBlanks_length_le cs
  have h₃ := skipBlanks_length_le mid
  rw [‹skipBlanks mid = ',' :: rest›, List.length_cons] at h₃
  omega

/-- A set test: blanks, the word, and the values in parentheses. -/
def set? (cs : List Char) : Option ((Operator × List String) × List Char) := do
  let (_, cs) ← blanks1? cs
  let (operator, cs) ← word? cs
  match skipBlanks cs with
  | '(' :: cs =>
    let (values, cs) ← values? cs
    return ((operator, values), cs)
  | _ => none

/-- What follows a key: a comparison, or else a set test. -/
def tail? (cs : List Char) : Option ((Operator × List String) × List Char) :=
  (comparison? cs).or (set? cs)

/-! ### A whole requirement -/

/-- An exclamation mark and the key of a label that has to be absent. -/
def negated? : List Char → Option (Draft × List Char)
  | '!' :: cs => (key? (skipBlanks cs)).map fun (key, cs) => (⟨String.ofList key, .absent, []⟩, cs)
  | _ => none

/-- A key, with a comparison or a set test if one follows it. What follows a key without making one
is left over. -/
def keyed? (cs : List Char) : Option (Draft × List Char) :=
  (key? cs).map fun (key, cs) =>
    match tail? cs with
    | some ((operator, values), cs) => (⟨String.ofList key, operator, values⟩, cs)
    | none => (⟨String.ofList key, .present, []⟩, cs)

/-- The requirement at the start of a text, as it is written. -/
def read? (cs : List Char) : Option (Draft × List Char) :=
  (negated? cs).or (keyed? cs)

/-! ### Reading leaves less text -/

theorem sign?_length_lt {cs rest : List Char} {operator : Operator}
    (h : sign? cs = some (operator, rest)) : rest.length < cs.length := by
  unfold sign? at h
  split at h <;> cases h <;> simp only [List.length_cons] <;> omega

theorem operand?_length_le {cs word rest : List Char} {operator : Operator}
    (h : operand? operator cs = some (word, rest)) : rest.length ≤ cs.length := by
  unfold operand? at h
  split at h
  · exact integer?_length_le h
  · exact value?_length_le h

theorem comparison?_length_le {cs rest : List Char} {found : Operator × List String}
    (h : comparison? cs = some (found, rest)) : rest.length ≤ cs.length := by
  unfold comparison? at h
  simp only [Option.bind_eq_bind, Option.bind_eq_some_iff, Prod.exists] at h
  obtain ⟨operator, cs₁, hsign, value, cs₂, hvalue, heq⟩ := h
  cases heq
  have h₁ := sign?_length_lt hsign
  have h₂ := operand?_length_le hvalue
  have h₃ := skipBlanks_length_le cs
  have h₄ := skipBlanks_length_le cs₁
  omega

theorem word?_length_lt {cs rest : List Char} {operator : Operator}
    (h : word? cs = some (operator, rest)) : rest.length < cs.length := by
  unfold word? at h
  split at h <;> cases h <;> simp only [List.length_cons] <;> omega

/-- Values take at least their closing parenthesis. Induction on the reader. -/
theorem values?_length_lt {cs rest : List Char} {values : List String}
    (h : values? cs = some (values, rest)) : rest.length < cs.length := by
  fun_induction values? cs generalizing values rest with
  | case1 => simp at h
  | case2 cs value mid hv tail hr ih =>
    obtain ⟨⟨more, rest'⟩, hmore, heq⟩ := Option.map_eq_some_iff.1 h
    cases heq
    have h₀ := ih hmore
    have h₁ := value?_length_le hv
    have h₂ := skipBlanks_length_le cs
    have h₃ := skipBlanks_length_le mid
    rw [hr, List.length_cons] at h₃
    omega
  | case3 cs value mid hv tail hr =>
    cases h
    have h₁ := value?_length_le hv
    have h₂ := skipBlanks_length_le cs
    have h₃ := skipBlanks_length_le mid
    rw [hr, List.length_cons] at h₃
    omega
  | case4 => simp at h

theorem blanks1?_length_le {cs run rest : List Char} (h : blanks1? cs = some (run, rest)) :
    rest.length ≤ cs.length := by
  unfold blanks1? at h
  split at h
  · simp at h
  · cases h
    exact skipBlanks_length_le cs

theorem set?_length_le {cs rest : List Char} {found : Operator × List String}
    (h : set? cs = some (found, rest)) : rest.length ≤ cs.length := by
  unfold set? at h
  simp only [Option.bind_eq_bind, Option.bind_eq_some_iff, Prod.exists] at h
  obtain ⟨run, cs₁, hrun, operator, cs₂, hword, h⟩ := h
  split at h
  · next cs₃ hopen =>
    simp only [Option.bind_eq_some_iff, Prod.exists] at h
    obtain ⟨values, cs₄, hvalues, heq⟩ := h
    cases heq
    have h₁ := blanks1?_length_le hrun
    have h₂ := word?_length_lt hword
    have h₃ := skipBlanks_length_le cs₂
    rw [hopen, List.length_cons] at h₃
    have h₄ := values?_length_lt hvalues
    omega
  · simp at h

theorem tail?_length_le {cs rest : List Char} {found : Operator × List String}
    (h : tail? cs = some (found, rest)) : rest.length ≤ cs.length := by
  unfold tail? at h
  rcases Option.or_eq_some_iff.1 h with h | ⟨_, h⟩
  · exact comparison?_length_le h
  · exact set?_length_le h

theorem negated?_length_lt {cs rest : List Char} {draft : Draft}
    (h : negated? cs = some (draft, rest)) : rest.length < cs.length := by
  unfold negated? at h
  split at h
  · next tail =>
    obtain ⟨⟨key, mid⟩, hkey, heq⟩ := Option.map_eq_some_iff.1 h
    cases heq
    have h₁ := key?_length_lt hkey
    have h₂ := skipBlanks_length_le tail
    simp only [List.length_cons]
    omega
  · simp at h

theorem keyed?_length_lt {cs rest : List Char} {draft : Draft}
    (h : keyed? cs = some (draft, rest)) : rest.length < cs.length := by
  obtain ⟨⟨key, mid⟩, hkey, heq⟩ := Option.map_eq_some_iff.1 h
  have h₁ := key?_length_lt hkey
  dsimp only at heq
  split at heq
  · next htail =>
    cases heq
    have h₂ := tail?_length_le htail
    omega
  · cases heq
    exact h₁

/-- A requirement takes at least one character. -/
theorem read?_length_lt {cs rest : List Char} {draft : Draft}
    (h : read? cs = some (draft, rest)) : rest.length < cs.length := by
  unfold read? at h
  rcases Option.or_eq_some_iff.1 h with h | ⟨_, h⟩
  · exact negated?_length_lt h
  · exact keyed?_length_lt h

end Draft

/-! ### Requirements that make sense -/

/-- How the reading of a requirement ends. -/
inductive Reading
  /-- A requirement stands at the start of the text. -/
  | found (requirement : Requirement) (rest : List Char)
  /-- No requirement stands there. -/
  | mismatch
  /-- A requirement is written there, from `start` on, that makes no sense. -/
  | invalid (start : List Char)
  deriving DecidableEq

namespace Requirement

/-- The requirement at the start of a text. One that makes no sense is told from none at all. -/
def read (cs : List Char) : Reading :=
  match Draft.read? cs with
  | none => .mismatch
  | some (draft, rest) =>
    match build draft.key draft.operator draft.values with
    | .ok requirement => .found requirement rest
    | .error _ => .invalid cs

/-- Reading a requirement leaves less text than there was. -/
theorem read_length_lt {cs rest : List Char} {r : Requirement} (h : read cs = .found r rest) :
    rest.length < cs.length := by
  unfold read at h
  split at h
  · cases h
  · next hdraft =>
    split at h
    · cases h
      exact Draft.read?_length_lt hdraft
    · cases h

end Requirement

/-! ## Whole selectors -/

namespace Selector

/-- The requirements that follow another, each after a comma, and the rest; in place of them, the
text from the first one on that makes no sense. -/
def readMore (cs : List Char) : Except (List Char) (List Requirement × List Char) :=
  match _ : skipBlanks cs with
  | ',' :: tail =>
    match _ : Requirement.read (skipBlanks tail) with
    | .found r rest => (readMore rest).map fun (rs, rest) => (r :: rs, rest)
    | .mismatch => .ok ([], cs)
    | .invalid start => .error start
  | _ => .ok ([], cs)
termination_by cs.length
decreasing_by
  -- the comma and the requirement after it are gone
  have h₁ := skipBlanks_length_le cs
  have h₂ := skipBlanks_length_le tail
  have h₃ := Requirement.read_length_lt ‹Requirement.read (skipBlanks tail) = .found r rest›
  rw [‹skipBlanks cs = ',' :: tail›, List.length_cons] at h₁
  omega

/-- The selector at the start of a text, with the blanks before and after it, and the rest; in place
of them, the text from the first requirement on that makes no sense. -/
def read (cs : List Char) : Except (List Char) (Selector × List Char) :=
  match Requirement.read (skipBlanks cs) with
  | .found r rest => (readMore rest).map fun (rs, rest) => (⟨r :: rs⟩, skipBlanks rest)
  | .mismatch => .ok (everything, skipBlanks cs)
  | .invalid start => .error start

/-- The selector that a text writes. An error tells the byte at which reading stopped: the first one
left over, or the first one of a requirement that makes no sense. -/
def parse (text : String) : Except SelectorError Selector :=
  match read text.toList with
  | .ok (selector, []) => .ok selector
  | .ok (_, rest) => .error (.unexpected text (positionOf text.toList rest))
  | .error start => .error (.unexpected text (positionOf text.toList start))

end Selector

end LabelQuery
