import LabelQuery.Number.Numeral
import LabelQuery.Selector.Basic

/-!
# Query — literals and conditions

One condition of a `where` clause. The condition for a requirement is a comparison, a set test or a
presence test, as its operator takes one value, some or none. A value in a condition is a literal: a
numeral is written bare, any other text between single quotes. Quotes inside a text are not escaped;
values are used as given.

* `Literal.classify` — a value as a numeral or as a text.
* `Clause.ofRequirement` — the condition that tests a requirement.
* `Literal.nrql`, `Clause.nrql` — how both are written.
-/

namespace LabelQuery

/-! ## Literals -/

/-- A value in a condition. -/
inductive Literal
  /-- A value that is written bare. -/
  | number (value : String)
  /-- A value that is written in quotes. -/
  | text (value : String)
  deriving DecidableEq, Repr

namespace Literal

/-- A value as a number if it is a numeral, and as a text if not. -/
def classify (value : String) : Literal :=
  if Number.isNumeric value.toList then .number value else .text value

def value : Literal → String
  | number value => value
  | text value => value

def isNumber : Literal → Bool
  | number _ => true
  | text _ => false

def nrql : Literal → String
  | number value => value
  | text value => "'" ++ value ++ "'"

/-- A literal keeps the value that it was made of, as it is. -/
theorem value_classify (v : String) : (classify v).value = v := by
  unfold classify
  split <;> rfl

end Literal

/-! ## Conditions -/

/-- One condition of a query. -/
inductive Clause
  | compare (key : String) (operator : Operator) (value : Literal)
  | set (key : String) (operator : Operator) (values : List Literal)
  | presence (key : String) (operator : Operator)
  | cluster (name : String)
  deriving DecidableEq, Repr

namespace Clause

/-- The attribute that holds the name of a row's cluster. -/
def clusterAttribute : String := "clusterName"

/-- The condition that tests a requirement. Its kind goes with the number of values that the
operator takes. -/
def ofRequirement (r : Requirement) : Clause :=
  match h : r.operator.arity with
  | .exactlyOne => compare r.key r.operator (Literal.classify (r.value h))
  | .atLeastOne => set r.key r.operator (r.values.map Literal.classify)
  | .no => presence r.key r.operator

/-- The condition in NRQL. The name of a cluster is quoted even if it is a numeral. -/
def nrql : Clause → String
  | compare key operator value => key ++ " " ++ operator.token ++ " " ++ value.nrql
  | set key operator values =>
    key ++ " " ++ operator.token ++ " (" ++ ", ".intercalate (values.map Literal.nrql) ++ ")"
  | presence key operator => key ++ " " ++ operator.token
  | cluster name => clusterAttribute ++ "=" ++ (Literal.text name).nrql

/-! ### Small facts -/

/-- An operator with one value makes a comparison. -/
theorem ofRequirement_of_exactlyOne {r : Requirement} (h : r.operator.arity = .exactlyOne) :
    ofRequirement r = compare r.key r.operator (Literal.classify (r.value h)) := by
  unfold ofRequirement
  split
  · rfl
  · next h' => rw [h] at h'; cases h'
  · next h' => rw [h] at h'; cases h'

theorem ofRequirement_of_atLeastOne {r : Requirement} (h : r.operator.arity = .atLeastOne) :
    ofRequirement r = set r.key r.operator (r.values.map Literal.classify) := by
  unfold ofRequirement
  split
  · next h' => rw [h] at h'; cases h'
  · rfl
  · next h' => rw [h] at h'; cases h'

theorem ofRequirement_of_no {r : Requirement} (h : r.operator.arity = .no) :
    ofRequirement r = presence r.key r.operator := by
  unfold ofRequirement
  split
  · next h' => rw [h] at h'; cases h'
  · next h' => rw [h] at h'; cases h'
  · rfl

end Clause

end LabelQuery
