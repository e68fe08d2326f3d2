import LabelQuery.Number.Integer
import LabelQuery.Selector.Operator

/-!
# Selector — requirements and selectors

A requirement tests one label: a key, an operator and the values it takes. The type holds only
requirements that make sense, so what reads a requirement has no odd case to treat. A selector is a
list of requirements, all of which have to hold; the empty one holds of everything. Two selectors are
equal if they list equal requirements in the same order.

* `SelectorError` — why a requirement cannot be built or a selector cannot be read, and the wording of
  each cause. Texts are quoted as they are: nothing in them is escaped.
* `Requirement.build` — a requirement from any key, operator and values, or why there is none.
* `Requirement.build_self` — building a requirement from its own parts gives it back.
* `Requirement.text`, `Selector.text` — the selector syntax.
-/

namespace LabelQuery

/-! ## Errors -/

/-- Why a requirement or a selector was refused. -/
inductive SelectorError
  | emptyKey
  | unknownOperator (spelling : String)
  /-- The operator does not take this number of distinct values. -/
  | valueCount (operator : Operator) (found : Nat)
  /-- The operator takes an integer, and this value is none. -/
  | notAnInteger (operator : Operator) (value : String)
  /-- The text is no selector; reading it stopped at this byte. -/
  | unexpected (text : String) (position : Nat)
  deriving DecidableEq, Repr

def SelectorError.message : SelectorError → String
  | .emptyKey => "requirement key must not be empty"
  | .unknownOperator spelling => s!"unknown selector operator '{spelling}'"
  | .valueCount operator found =>
    s!"operator '{operator.spelling}' expects {operator.arity.words} value(s), found {found}"
  | .notAnInteger operator value =>
    s!"operator '{operator.spelling}' requires an integer value, found '{value}'"
  | .unexpected text position =>
    s!"invalid selector '{text}': unexpected input at position {position}"

/-! ## Requirements -/

/-- `v` is an integer of 64 bits, written with an optional sign and decimal digits. -/
def IsInteger (v : String) : Prop :=
  (Number.int64? v.toList).isSome

instance : DecidablePred IsInteger := fun _ => inferInstanceAs (Decidable (_ = true))

/-- One test of one label. -/
structure Requirement where
  key : String
  operator : Operator
  /-- What the label is compared with, in the order given. -/
  values : List String
  key_ne : key ≠ ""
  /-- No value is given twice. -/
  nodup : values.Nodup
  /-- There are as many values as the operator takes. -/
  allows : operator.arity.Allows values.length
  integers : operator.isNumeric → ∀ v ∈ values, IsInteger v
  deriving DecidableEq

namespace Requirement

/-! ### Building -/

/-- The values in order, each where it stands first. -/
def distinct (values : List String) : List String :=
  values.eraseDups

/-- Dropping repeats loses no value. -/
theorem mem_distinct {v : String} {values : List String} : v ∈ distinct values ↔ v ∈ values :=
  List.mem_eraseDups

/-- No value is left twice. Induction on the number of values, since what is dropped is dropped from
the whole tail. -/
theorem nodup_distinct (values : List String) : (distinct values).Nodup := by
  match values with
  | [] => simp [distinct]
  | v :: vs =>
    have ih := nodup_distinct (vs.filter fun w => !w == v)
    unfold distinct at ih ⊢
    rw [List.eraseDups_cons, List.nodup_cons]
    exact ⟨by simp, ih⟩
termination_by values.length
decreasing_by
  have := List.length_filter_le (fun w => !w == v) vs
  simp only [List.length_cons]
  omega

/-- The requirement with this key, operator and values, repeats dropped. Of several faults the first
of these is told: the key, the number of values, a value that is no integer. -/
def build (key : String) (operator : Operator) (values : List String) :
    Except SelectorError Requirement :=
  if key_ne : key = "" then .error .emptyKey
  else if allows : operator.arity.Allows (distinct values).length then
    match bad : (distinct values).find? fun v => operator.isNumeric && !decide (IsInteger v) with
    | some v => .error (.notAnInteger operator v)
    | none =>
      .ok
        { key, operator, values := distinct values, key_ne, nodup := nodup_distinct values, allows
          integers := fun numeric v hv => by simpa [numeric] using List.find?_eq_none.1 bad v hv }
  else .error (.valueCount operator (distinct values).length)

/-- The same for an operator given by its spelling, which is looked at first. -/
def buildSpelled (key spelling : String) (values : List String) :
    Except SelectorError Requirement :=
  match Operator.ofSpelling? spelling with
  | none => .error (.unknownOperator spelling)
  | some operator => build key operator values

def present (key : String) : Except SelectorError Requirement :=
  build key .present []

def absent (key : String) : Except SelectorError Requirement :=
  build key .absent []

def equals (key value : String) : Except SelectorError Requirement :=
  build key .equals [value]

/-! ### Text -/

theorem values_length {r : Requirement} (h : r.operator.arity = .exactlyOne) :
    r.values.length = 1 := by
  have := r.allows
  rwa [h] at this

/-- The value of a comparison, which is its only one. -/
def value (r : Requirement) (h : r.operator.arity = .exactlyOne) : String :=
  r.values.head fun e => by simpa [e] using values_length h

/-- A requirement whose operator takes one value has this value and no other. -/
theorem values_eq {r : Requirement} (h : r.operator.arity = .exactlyOne) :
    r.values = [r.value h] := by
  obtain ⟨v, hv⟩ := List.length_eq_one_iff.1 (values_length h)
  simp [value, hv]

/-- How a selector writes an operator between a key and a value. -/
def sign : Operator → String
  | .greaterThan => ">"
  | .lessThan => "<"
  | operator => operator.spelling

def text (r : Requirement) : String :=
  match h : r.operator.arity with
  | .exactlyOne => r.key ++ sign r.operator ++ r.value h
  | .atLeastOne => r.key ++ " " ++ r.operator.spelling ++ " (" ++ ",".intercalate r.values ++ ")"
  | .no => if r.operator = .absent then "!" ++ r.key else r.key

/-! ### Small facts -/

/-- Values without repeats stay as they are. -/
theorem distinct_of_nodup {values : List String} (h : values.Nodup) : distinct values = values := by
  unfold distinct
  induction values with
  | nil => rfl
  | cons v vs ih =>
    rw [List.nodup_cons] at h
    rw [List.eraseDups_cons, List.filter_eq_self.2, ih h.2]
    intro w hw
    have : w ≠ v := fun e => h.1 (e ▸ hw)
    simpa using this

/-- Building a requirement from its own key, operator and values gives it back. -/
theorem build_self (r : Requirement) : build r.key r.operator r.values = .ok r := by
  have hd := distinct_of_nodup r.nodup
  -- the values are integers where they have to be, so the search for one that is not finds none
  have hfind : r.values.find? (fun v => r.operator.isNumeric && !decide (IsInteger v)) = none := by
    rw [List.find?_eq_none]
    intro v hv
    by_cases hn : r.operator.isNumeric
    · simpa [hn] using r.integers hn v hv
    · simp [hn]
  unfold build
  rw [dif_neg r.key_ne]
  split
  · split
    · next v hv => rw [hd, hfind] at hv; cases hv
    · simp only [hd]
  · next h => rw [hd] at h; exact absurd r.allows h

end Requirement

/-! ## Selectors -/

/-- The requirements that a series has to meet, in order. -/
structure Selector where
  requirements : List Requirement
  deriving DecidableEq

namespace Selector

def everything : Selector :=
  ⟨[]⟩

/-- A selector with one more requirement at its end. -/
def push (s : Selector) (r : Requirement) : Selector :=
  ⟨s.requirements ++ [r]⟩

def length (s : Selector) : Nat :=
  s.requirements.length

def isEmpty (s : Selector) : Bool :=
  s.requirements.isEmpty

/-- The selector in selector syntax: the requirements between commas. -/
def text (s : Selector) : String :=
  ",".intercalate (s.requirements.map Requirement.text)

end Selector

end LabelQuery
