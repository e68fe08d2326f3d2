import LabelQuery.Query.Clause
import LabelQuery.Selector.Basic
import LabelQuery.Text.Word

/-!
# Query — assembling a query

A query is the text that a metric is configured with, perhaps a limit, and conditions:

    <base> [limit 1] [where <condition> [and <condition>]…]

* `Query.hasLimit` — the query is limited, by its base text or by a limit that was added.
* `Query.apply` — one step of assembly. A step never fails.
* `Query.nrql` — the text. The limit comes before `where`, whatever the order of the steps, and one
  `where` serves all conditions.
-/

namespace LabelQuery

/-- A query that is being assembled. -/
structure Query where
  base : String
  /-- A limit was added. -/
  limited : Bool
  /-- The conditions, in the order they were added. -/
  clauses : List Clause
  deriving DecidableEq, Repr

namespace Query

def ofBase (base : String) : Query :=
  ⟨base, false, []⟩

/-- The word that marks a text as limited, in any case. -/
def limitWord : List Char := " limit ".toList

/-- The word stands in the text, in any case. -/
def hasLimitWord (base : String) : Bool :=
  Text.holdsAnyCase limitWord base.toList

/-- The query is limited: a limit was added, or the base has one. -/
def hasLimit (q : Query) : Bool :=
  q.limited || hasLimitWord q.base

/-! ## Text -/

/-- The conditions with their keyword, if there are any. -/
def whereClause? (q : Query) : Option String :=
  if q.clauses = [] then none
  else some ("where " ++ " and ".intercalate (q.clauses.map Clause.nrql))

/-- The text of a query. The limit stands right after the base, before the conditions. -/
def nrql (q : Query) : String :=
  q.base ++ (if q.limited then " limit 1" else "")
    ++ (match q.whereClause? with | some clause => " " ++ clause | none => "")

/-! ## Steps -/

/-- A query with a limit of one result, unless it is limited already. -/
def addLimit (q : Query) : Query :=
  if q.hasLimit then q else { q with limited := true }

def addClause (q : Query) (c : Clause) : Query :=
  { q with clauses := q.clauses ++ [c] }

/-- A query for the rows of one cluster, if that is asked for. -/
def addCluster (q : Query) (name : String) (enabled : Bool) : Query :=
  if enabled then q.addClause (.cluster name) else q

/-- A query with the conditions of a selector, in its order. -/
def addSelector (q : Query) (s : Option Selector) : Query :=
  { q with clauses := q.clauses ++ (s.getD .everything).requirements.map Clause.ofRequirement }

/-- A step in the assembly of a query. -/
inductive Step
  | limit
  | cluster (name : String) (enabled : Bool)
  /-- Restrict the query to what a selector matches. -/
  | matching (selector : Option Selector)
  | clause (clause : Clause)
  deriving DecidableEq

/-- One step of assembly. -/
def apply (q : Query) : Step → Query
  | .limit => q.addLimit
  | .cluster name enabled => q.addCluster name enabled
  | .matching selector => q.addSelector selector
  | .clause clause => q.addClause clause

/-- The query after steps, taken in order. -/
def run (q : Query) (steps : List Step) : Query :=
  steps.foldl apply q

/-- A new query that has the text of a query for its base. -/
def rebase (q : Query) : Query :=
  ofBase q.nrql

end Query

end LabelQuery
