import LabelQuery.Proofs.KeyMap
import LabelQuery.Proofs.Query.NormalForm
import LabelQuery.Provider.Basic

/-!
# Provider — what a history of changes leaves

A provider is made by changes: metrics are set, perhaps over earlier ones of the same name, and the
cluster is named. Of a history only the last change of each kind counts, and the answer for one metric
does not depend on the others.

* `Metric.nrql_build` — the text of a metric's query.
* `Provider.metric?_apply`, `Provider.clusterName_apply` — what one change does.
* `Provider.metric?_run`, `Provider.clusterName_run` — what any changes leave.
* `Provider.queryFor_run_empty` — what a provider answers after any changes.
-/

namespace LabelQuery

/-! ## The query of a metric -/

namespace Metric

/-- The requirements of a request, none if there is no selector. -/
def requirements (selector : Option Selector) : List Requirement :=
  (selector.getD .everything).requirements

/-- The conditions of a request in their order: the cluster, if the metric is restricted to it, and
the requirements of the selector. -/
def conditions (m : Metric) (cluster : String) (selector : Option Selector) : List String :=
  (if m.clusterFilter then ["clusterName='" ++ cluster ++ "'"] else []) ++
    (requirements selector).map fun r => (Clause.ofRequirement r).nrql

/-- The text of a request: the metric's query, a limit if it has none, and the conditions, if any. -/
def requestText (m : Metric) (cluster : String) (selector : Option Selector) : String :=
  m.query ++ (if ContainsLimit m.query then "" else " limit 1") ++
    if m.clusterFilter ∨ requirements selector ≠ [] then
      " where " ++ " and ".intercalate (m.conditions cluster selector)
    else ""

theorem nrql_cluster (name : String) :
    (Clause.cluster name).nrql = "clusterName='" ++ name ++ "'" := by
  simp [Clause.nrql, Clause.clusterAttribute, Literal.nrql, ← String.append_assoc]

/-- The conditions of a metric's query are those that its steps add. -/
theorem clauses_build (m : Metric) (cluster : String) (selector : Option Selector) :
    (m.build cluster selector).clauses =
      (if m.clusterFilter then [.cluster cluster] else []) ++
        (requirements selector).map Clause.ofRequirement := by
  rw [build, Query.run_eq]
  cases m.clusterFilter <;> cases selector <;>
    simp [Query.ofBase, Query.Step.clauses, requirements, Selector.everything]

theorem limited_build (m : Metric) (cluster : String) (selector : Option Selector) :
    (m.build cluster selector).limited ↔ ¬ ContainsLimit m.query := by
  rw [build, Query.run_eq, ← Query.hasLimitWord_iff]
  simp [Query.ofBase]

theorem base_build (m : Metric) (cluster : String) (selector : Option Selector) :
    (m.build cluster selector).base = m.query := by
  rw [build, Query.run_eq]
  rfl

/-- The text of a metric's query, written out: the normal form for its steps. -/
theorem nrql_build (m : Metric) (cluster : String) (selector : Option Selector) :
    (m.build cluster selector).nrql = m.requestText cluster selector := by
  -- there are no conditions only without a restriction and without requirements
  have hnone : (m.build cluster selector).clauses = [] ↔
      ¬ (m.clusterFilter ∨ requirements selector ≠ []) := by
    rw [clauses_build]
    cases m.clusterFilter <;> simp
  -- the texts of the conditions, the cluster first
  have htexts : (m.build cluster selector).clauses.map Clause.nrql =
      m.conditions cluster selector := by
    rw [clauses_build, conditions]
    cases m.clusterFilter <;> simp [nrql_cluster]
  rw [Query.nrql_eq, base_build, htexts, requestText]
  simp only [limited_build, hnone, ite_not]

end Metric

namespace Provider

/-! ## One change -/

/-- The metric that a change sets under a name, if it does. -/
def Change.metric? (name : String) : Change → Option Metric
  | .cluster _ => none
  | .metric n m => if n = name then some m else none

/-- The cluster that a change names, if it does. -/
def Change.cluster? : Change → Option String
  | .cluster name => some name
  | .metric _ _ => none

/-- A change sets a metric under a name only if it is the change that says so. -/
theorem Change.metric?_eq_some_iff {c : Change} {name : String} {m : Metric} :
    c.metric? name = some m ↔ c = .metric name m := by
  cases c with
  | cluster _ => simp [metric?]
  | metric n m' => by_cases h : n = name <;> simp [metric?, h]

theorem metric?_withMetric (p : Provider) (name other : String) (m : Metric) :
    (p.withMetric other m).metric? name = if name = other then some m else p.metric? name :=
  KeyMap.find?_insert p.metrics other m name

/-- What a change sets comes before what was there. This is the step for metrics. -/
theorem metric?_apply (p : Provider) (c : Change) (name : String) :
    (p.apply c).metric? name = (c.metric? name).or (p.metric? name) := by
  cases c with
  | cluster _ => rfl
  | metric n m =>
    show (p.withMetric n m).metric? name = _
    rw [metric?_withMetric]
    by_cases h : n = name
    · simp [Change.metric?, h]
    · simp [Change.metric?, h, Ne.symm h]

/-- A cluster that is named replaces the one that was named before. This is the step for the
cluster. -/
theorem clusterName_apply (p : Provider) (c : Change) :
    (p.apply c).clusterName = c.cluster?.getD p.clusterName := by
  cases c <;> rfl

/-- A metric is answered for without regard to the others: setting one of another name changes
neither what is found nor the cluster. -/
theorem queryFor_withMetric_of_ne (p : Provider) {name other : String} (h : other ≠ name)
    (m : Metric) (selector : Option Selector) :
    (p.withMetric other m).queryFor name selector = p.queryFor name selector := by
  unfold queryFor
  rw [metric?_withMetric, if_neg h.symm]
  rfl

/-! ## Any changes -/

/-- The metric that changes leave under a name: the one that was set last. -/
def metricAfter? (name : String) (changes : List Change) : Option Metric :=
  (changes.filterMap (Change.metric? name)).getLast?

/-- The name of the cluster that changes leave: the one that was given last. -/
def clusterAfter? (changes : List Change) : Option String :=
  (changes.filterMap Change.cluster?).getLast?

/-- The last of the values that a list gives is the last of its tail, or else that of its head. Both
runs below follow this equation. -/
theorem getLast?_filterMap_cons {α β : Type} (f : α → Option β) (a : α) (as : List α) :
    ((a :: as).filterMap f).getLast? = (as.filterMap f).getLast?.or (f a) := by
  cases h : f a with
  | none => simp [h]
  | some b => simp [h, List.getLast?_cons, Option.or_some]

/-- **The metrics after any changes.** What they leave under a name is what was set last, or else
what was there before. Induction on the changes. -/
theorem metric?_run (p : Provider) (changes : List Change) (name : String) :
    (p.run changes).metric? name = (metricAfter? name changes).or (p.metric? name) := by
  induction changes generalizing p with
  | nil => rfl
  | cons c changes ih =>
    show ((p.apply c).run changes).metric? name = _
    rw [ih, metric?_apply, metricAfter?, metricAfter?, getLast?_filterMap_cons, Option.or_assoc]

/-- **The cluster after any changes.** It is the one that was named last, or else the one before.
Induction on the changes. -/
theorem clusterName_run (p : Provider) (changes : List Change) :
    (p.run changes).clusterName = (clusterAfter? changes).getD p.clusterName := by
  induction changes generalizing p with
  | nil => rfl
  | cons c changes ih =>
    show ((p.apply c).run changes).clusterName = _
    rw [ih, clusterName_apply, clusterAfter?, clusterAfter?, getLast?_filterMap_cons,
      Option.getD_or]

theorem metric?_run_empty (changes : List Change) (name : String) :
    (empty.run changes).metric? name = metricAfter? name changes := by
  rw [metric?_run]
  exact Option.or_none

/-- Changes leave nothing under a name exactly if none of them sets it. -/
theorem metricAfter?_eq_none_iff {name : String} {changes : List Change} :
    metricAfter? name changes = none ↔ ∀ m, .metric name m ∉ changes := by
  rw [metricAfter?, List.getLast?_eq_none_iff, List.filterMap_eq_nil_iff]
  constructor
  · intro h m hm
    have hnone := h _ hm
    rw [Change.metric?_eq_some_iff.2 rfl] at hnone
    cases hnone
  · intro h c hc
    rw [Option.eq_none_iff_forall_ne_some]
    intro m hm
    exact h m (Change.metric?_eq_some_iff.1 hm ▸ hc)

/-- What was set last is left, whatever came before it. -/
theorem metricAfter?_append_cons {before after : List Change} {name : String} {m : Metric}
    (hlast : ∀ m', .metric name m' ∉ after) :
    metricAfter? name (before ++ .metric name m :: after) = some m := by
  have hafter := metricAfter?_eq_none_iff.2 hlast
  unfold metricAfter? at hafter ⊢
  rw [List.filterMap_append, List.getLast?_append, getLast?_filterMap_cons, hafter,
    Change.metric?_eq_some_iff.2 rfl]
  rfl

/-- The names are those under which some change set a metric. -/
theorem mem_names_run_empty {changes : List Change} {name : String} :
    name ∈ (empty.run changes).names ↔ ∃ m, .metric name m ∈ changes := by
  have hmetric : (empty.run changes).metrics.find? name = metricAfter? name changes :=
    metric?_run_empty changes name
  rw [names, KeyMap.mem_keys_iff, hmetric, Option.isSome_iff_ne_none, Ne, metricAfter?_eq_none_iff]
  simp only [Classical.not_forall, Classical.not_not]

/-- **What a provider answers after any changes.** It refuses a name exactly if no change set a metric
under it. Otherwise the answer is the query of the metric that was set last, with a limit, the cluster
that was named last and the selector. The names are those of the metrics that were set, each once, in
the strict order of their bytes, and to set another metric changes nothing for this one. -/
theorem queryFor_run_empty (changes : List Change) (name : String) (selector : Option Selector) :
    ((empty.run changes).queryFor name selector = .error ⟨name⟩ ↔
      ∀ m, .metric name m ∉ changes) ∧
    (∀ before m after, changes = before ++ .metric name m :: after →
      (∀ m', .metric name m' ∉ after) →
      ∃ q, (empty.run changes).queryFor name selector = .ok q ∧
        q.nrql = m.requestText ((clusterAfter? changes).getD "") selector) ∧
    (∀ n, n ∈ (empty.run changes).names ↔ ∃ m, .metric n m ∈ changes) ∧
    (empty.run changes).names.Nodup ∧
    (empty.run changes).names.Pairwise Text.ByteLt ∧
    (∀ other m, other ≠ name →
      ((empty.run changes).withMetric other m).queryFor name selector =
        (empty.run changes).queryFor name selector) := by
  refine ⟨?_, ?_, fun n => mem_names_run_empty, KeyMap.keys_nodup _, KeyMap.keys_ordered _,
    fun other m h => queryFor_withMetric_of_ne _ h m selector⟩
  · -- a name is refused where nothing is found under it
    rw [← metricAfter?_eq_none_iff, queryFor, metric?_run_empty]
    cases metricAfter? name changes <;> simp
  · rintro before m after rfl hlast
    -- no later change sets the name, so what was set last is found
    refine ⟨m.build _ selector, ?_, m.nrql_build _ selector⟩
    rw [queryFor, metric?_run_empty, metricAfter?_append_cons hlast, clusterName_run]
    rfl

/-- A metric that was set again, and a cluster that was named between. -/
theorem queryFor_run_set_twice :
    ∃ q, (empty.run [.metric "cpu" ⟨"a", false⟩, .cluster "edge", .metric "cpu" ⟨"b", true⟩]).queryFor
        "cpu" none = .ok q ∧ q.nrql = "b limit 1 where clusterName='edge'" := by
  obtain ⟨q, hq, htext⟩ := (queryFor_run_empty
      [.metric "cpu" ⟨"a", false⟩, .cluster "edge", .metric "cpu" ⟨"b", true⟩] "cpu" none).2.1
    [.metric "cpu" ⟨"a", false⟩, .cluster "edge"] ⟨"b", true⟩ [] rfl nofun
  exact ⟨q, hq, htext.trans (by decide +kernel)⟩

end Provider

end LabelQuery
