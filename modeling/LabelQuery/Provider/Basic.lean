import LabelQuery.KeyMap
import LabelQuery.Query.Basic

/-!
# Provider — external metrics

A provider serves the external metrics of one cluster. Each metric has a query of its own, which is
limited and filtered for a request.

* `Metric.build` — the query for a request: the limit, then the cluster, then the selector.
* `Provider.queryFor` — the query for a metric by name.
* `Provider.apply` — one change of a provider.
-/

namespace LabelQuery

/-- A metric: where its values come from. -/
structure Metric where
  query : String
  /-- Only rows of the provider's cluster count. -/
  clusterFilter : Bool
  deriving DecidableEq, Repr

namespace Metric

/-- The metric of a query text, over all clusters. -/
def ofQuery (query : String) : Metric :=
  ⟨query, false⟩

/-- The query for a request: the limit goes first, then the cluster, then the selector. -/
def build (m : Metric) (cluster : String) (selector : Option Selector) : Query :=
  (Query.ofBase m.query).run [.limit, .cluster cluster m.clusterFilter, .matching selector]

end Metric

/-- No metric has this name. -/
structure UnknownMetric where
  name : String
  deriving DecidableEq, Repr

def UnknownMetric.message (e : UnknownMetric) : String :=
  s!"no query configured for external metric '{e.name}'"

/-- The external metrics of one cluster. -/
structure Provider where
  clusterName : String
  metrics : KeyMap Metric
  deriving DecidableEq

namespace Provider

/-- A provider without metrics, for a cluster without a name. -/
def empty : Provider :=
  ⟨"", .empty⟩

def withMetric (p : Provider) (name : String) (m : Metric) : Provider :=
  { p with metrics := p.metrics.insert name m }

/-- The names of the metrics, in the order of their bytes. -/
def names (p : Provider) : List String :=
  p.metrics.keys

def metric? (p : Provider) (name : String) : Option Metric :=
  p.metrics.find? name

/-- The query for a metric by name, or the name if no metric has it. -/
def queryFor (p : Provider) (name : String) (selector : Option Selector) :
    Except UnknownMetric Query :=
  match p.metric? name with
  | none => .error ⟨name⟩
  | some m => .ok (m.build p.clusterName selector)

/-! ## Changes -/

/-- A change of a provider. -/
inductive Change
  | cluster (name : String)
  | metric (name : String) (metric : Metric)
  deriving DecidableEq, Repr

def apply (p : Provider) : Change → Provider
  | .cluster name => { p with clusterName := name }
  | .metric name m => p.withMetric name m

/-- The provider after changes, taken in order. -/
def run (p : Provider) (changes : List Change) : Provider :=
  changes.foldl apply p

end Provider

end LabelQuery
