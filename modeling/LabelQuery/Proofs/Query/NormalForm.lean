import LabelQuery.Proofs.Text.Search
import LabelQuery.Query.Basic

/-!
# Query — the normal form of a query

The steps of an assembly go in any order and any number, but two of a query's parts do not look at
each other: whether a limit was asked for, and which conditions were added. So a run of steps depends
only on whether there is a limit among them, and on their conditions in order.

* `ContainsLimit` — a text is limited already.
* `Query.Step.clauses` — the conditions that a step adds.
* `Query.run_eq` — a query after any steps.
* `Query.run_ofBase_normalForm` — its text, and the steps that may be moved or left out.
-/

namespace LabelQuery

/-- The word `limit` stands between blanks somewhere in a text, in any ASCII case. -/
def ContainsLimit (base : String) : Prop :=
  Text.StandsIn " limit ".toList base.toList

namespace Query

/-- The search of the lowered base finds a limit exactly where the base has one in some case, as the
word searched for is plain and does not end with `i`. -/
theorem hasLimitWord_iff {base : String} : hasLimitWord base ↔ ContainsLimit base :=
  Text.holdsAnyCase_iff (by decide) (List.all_eq_true.1 rfl) (by decide)

instance (base : String) : Decidable (ContainsLimit base) :=
  decidable_of_iff (hasLimitWord base = true) hasLimitWord_iff

theorem hasLimit_iff {q : Query} : q.hasLimit ↔ q.limited ∨ ContainsLimit q.base := by
  rw [← hasLimitWord_iff]
  exact Bool.or_eq_true_iff

/-! ## One step -/

/-- The conditions that a step adds to a query. -/
def Step.clauses : Step → List Clause
  | .limit => []
  | .cluster name true => [.cluster name]
  | .cluster _ false => []
  | .matching none => []
  | .matching (some selector) => selector.requirements.map Clause.ofRequirement
  | .clause c => [c]

/-- A step that asks for nothing: a filter that is off, or a selector that is missing or empty. -/
inductive Step.Inert : Step → Prop where
  | cluster (name : String) : Inert (.cluster name false)
  | missing : Inert (.matching none)
  | empty {selector : Selector} (h : selector.requirements = []) : Inert (.matching (some selector))

/-- Asking for a limit is never inert, even where the base has one. -/
theorem Step.Inert.ne_limit {s : Step} (h : s.Inert) : s ≠ .limit := by
  rintro rfl
  cases h

theorem Step.Inert.clauses_eq_nil {s : Step} (h : s.Inert) : s.clauses = [] := by
  cases h with
  | cluster _ => rfl
  | missing => rfl
  | empty h => rw [Step.clauses, h, List.map_nil]

/-- **What one step does**: it may limit the query, and puts its conditions after those that are
there. All that follows about runs comes from this one equation. -/
theorem apply_eq (q : Query) (s : Step) : q.apply s =
    ⟨q.base, q.limited || (decide (s = .limit) && !hasLimitWord q.base), q.clauses ++ s.clauses⟩ := by
  cases s with
  | limit =>
    obtain ⟨base, limited, clauses⟩ := q
    -- a mark that is there stays, and without one the base decides
    show (if limited || hasLimitWord base then _ else _) = _
    cases limited <;> cases hasLimitWord base <;> simp [Step.clauses]
  -- a filter that is off adds nothing
  | cluster name enabled => cases enabled <;> simp [apply, addCluster, addClause, Step.clauses]
  | matching selector =>
    cases selector <;> simp [apply, addSelector, Step.clauses, Selector.everything]
  | clause c => simp [apply, addClause, Step.clauses]

/-! ## Runs of steps -/

theorem run_cons (q : Query) (s : Step) (steps : List Step) :
    q.run (s :: steps) = (q.apply s).run steps := rfl

/-- **A query after any steps.** Induction on the steps, for any query to begin with: the marks of
two steps join by `or`, and the conditions in their order. -/
theorem run_eq (q : Query) (steps : List Step) : q.run steps =
    ⟨q.base, q.limited || (decide (.limit ∈ steps) && !hasLimitWord q.base),
      q.clauses ++ steps.flatMap Step.clauses⟩ := by
  induction steps generalizing q with
  | nil => simp [run]
  | cons s steps ih =>
    rw [run_cons, ih, apply_eq]
    simp [Bool.or_assoc, Bool.and_or_distrib_right, eq_comm]

/-- A limit may be asked for at any time: it adds no conditions, and the mark does not depend on the
place. -/
theorem run_limit_comm (q : Query) (before between after : List Step) :
    q.run (before ++ .limit :: (between ++ after)) =
      q.run (before ++ between ++ .limit :: after) := by
  rw [run_eq, run_eq]
  simp [Step.clauses]

/-- A step that asks for nothing may be left out: it is no limit and adds no conditions. -/
theorem run_inert (q : Query) (before after : List Step) {s : Step} (h : s.Inert) :
    q.run (before ++ s :: after) = q.run (before ++ after) := by
  have hlimit : .limit ∈ before ++ s :: after ↔ .limit ∈ before ++ after := by
    simp [h.ne_limit.symm]
  have hclauses : (before ++ s :: after).flatMap Step.clauses =
      (before ++ after).flatMap Step.clauses := by
    simp [h.clauses_eq_nil]
  -- the two runs differ in neither part
  rw [run_eq, run_eq, hclauses]
  simp only [hlimit]

/-! ## The normal form -/

/-- The text of a query as three parts: its base, a limit, and the conditions after one `where`. -/
theorem nrql_eq (q : Query) : q.nrql = q.base ++ (if q.limited then " limit 1" else "") ++
    if q.clauses = [] then ""
    else " where " ++ " and ".intercalate (q.clauses.map Clause.nrql) := by
  have hwhere : " where " = " " ++ "where " := rfl
  unfold nrql whereClause?
  by_cases hclauses : q.clauses = []
  · rw [if_pos hclauses, if_pos hclauses]
  · rw [if_neg hclauses, if_neg hclauses, hwhere]
    simp only [String.append_assoc]

/-- **The normal form of a query.** After any steps the base is the text that it began with, and the
conditions are those of the steps in their order. The text is the base, a limit if some step asked for
one and the base has none, and the conditions after a single `where`. So a limit may be asked for
sooner or later, and a step that asks for nothing may be left out. -/
theorem run_ofBase_normalForm (base : String) (steps : List Step) :
    ((ofBase base).run steps).base = base ∧
    ((ofBase base).run steps).clauses = steps.flatMap Step.clauses ∧
    ((ofBase base).run steps).nrql = base ++
      (if .limit ∈ steps ∧ ¬ ContainsLimit base then " limit 1" else "") ++
      (if steps.flatMap Step.clauses = [] then ""
        else " where " ++ " and ".intercalate ((steps.flatMap Step.clauses).map Clause.nrql)) ∧
    (∀ before between after,
      (ofBase base).run (before ++ .limit :: (between ++ after)) =
        (ofBase base).run (before ++ between ++ .limit :: after)) ∧
    (∀ before s after, s.Inert →
      (ofBase base).run (before ++ s :: after) = (ofBase base).run (before ++ after)) := by
  -- a new query carries no mark, so only the steps and the base decide
  have hlimited : ((ofBase base).run steps).limited ↔ .limit ∈ steps ∧ ¬ ContainsLimit base := by
    rw [run_eq, ← hasLimitWord_iff]
    simp [ofBase]
  have hclauses : ((ofBase base).run steps).clauses = steps.flatMap Step.clauses := by
    rw [run_eq]
    exact List.nil_append _
  have hbase : ((ofBase base).run steps).base = base := by
    rw [run_eq]
    rfl
  refine ⟨hbase, hclauses, ?_, run_limit_comm _, fun before s after => run_inert _ before after⟩
  rw [nrql_eq, hbase, hclauses]
  simp only [hlimited]

end Query

end LabelQuery
