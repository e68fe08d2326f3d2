/-!
# Selector — operators

The nine operators of a requirement. `=` and `==` are two spellings of one test and stay apart.

* `Operator.spelling` — how requests spell an operator; `ofSpelling?` reads it back.
* `Operator.arity` — how many values an operator takes.
* `Operator.token` — how an NRQL condition spells it.
-/

namespace LabelQuery

/-- The operator of a requirement. -/
inductive Operator
  | equals
  /-- The label equals the value, spelled with two signs. -/
  | doubleEquals
  | notEquals
  | greaterThan
  | lessThan
  | present
  | absent
  | oneOf
  | noneOf
  deriving DecidableEq, Repr

namespace Operator

def all : List Operator :=
  [equals, doubleEquals, notEquals, greaterThan, lessThan, present, absent, oneOf, noneOf]

def index (op : Operator) : Nat :=
  all.idxOf op

/-- How a request spells an operator. -/
def spelling : Operator → String
  | equals => "="
  | doubleEquals => "=="
  | notEquals => "!="
  | greaterThan => "gt"
  | lessThan => "lt"
  | present => "exists"
  | absent => "!"
  | oneOf => "in"
  | noneOf => "notin"

def ofSpelling? (s : String) : Option Operator :=
  all.find? fun op => op.spelling == s

/-! ## What an operator takes -/

/-- How many distinct values an operator takes. -/
inductive Arity
  | exactlyOne
  | atLeastOne
  | no
  deriving DecidableEq, Repr

def Arity.words : Arity → String
  | .exactlyOne => "exactly one"
  | .atLeastOne => "at least one"
  | .no => "no"

/-- `n` values are a number of values that the arity allows. -/
def Arity.Allows : Arity → Nat → Prop
  | .exactlyOne, n => n = 1
  | .atLeastOne, n => n ≠ 0
  | .no, n => n = 0

instance : (arity : Arity) → (n : Nat) → Decidable (arity.Allows n)
  | .exactlyOne, n => inferInstanceAs (Decidable (n = 1))
  | .atLeastOne, n => inferInstanceAs (Decidable (n ≠ 0))
  | .no, n => inferInstanceAs (Decidable (n = 0))

/-- Comparisons take one value, sets at least one, presence tests none. -/
def arity : Operator → Arity
  | equals | doubleEquals | notEquals | greaterThan | lessThan => .exactlyOne
  | oneOf | noneOf => .atLeastOne
  | present | absent => .no

/-- The operators whose value is an integer. -/
def isNumeric : Operator → Bool
  | greaterThan | lessThan => true
  | _ => false

/-! ## NRQL -/

/-- How an NRQL condition spells an operator. -/
def token : Operator → String
  | equals | doubleEquals => "="
  | notEquals => "!="
  | greaterThan => ">"
  | lessThan => "<"
  | present => "IS NOT NULL"
  | absent => "IS NULL"
  | oneOf => "IN"
  | noneOf => "NOT IN"

/-- The NRQL token for a spelling; a spelling of no operator has the empty token. -/
def tokenOfSpelling (s : String) : String :=
  ((ofSpelling? s).map token).getD ""

/-! ## Small facts -/

/-- Reading a spelling gives the operator back, so no two operators share one. -/
theorem ofSpelling?_spelling (op : Operator) : ofSpelling? op.spelling = some op := by
  cases op <;> decide

/-- An operator is found under its own spelling only. -/
theorem spelling_of_ofSpelling? {s : String} {op : Operator} (h : ofSpelling? s = some op) :
    op.spelling = s := by
  simpa using List.find?_some h

end Operator

end LabelQuery
