import LabelQuery.Provider.Basic
import LabelQuery.Settings.Document.Basic
import LabelQuery.Settings.Environment
import LabelQuery.Settings.Value

/-!
# Settings — loading a provider

A provider is loaded from a configuration file, if there is one, with the environment laid over it.
A file that is no document is an error, whatever the environment holds. The fields of a provider and
of its metrics are then looked up in the table that comes of it. A field may be left out if it has a
default, keys that name no field count for nothing, and no value is taken for one of another kind.
Fields are looked at in the order of their keys, and the first fault is told; that a metric has no
query is told last.

* `LoadError` — why settings make no provider, with the wording of each fault.
* `providerOfTable` — the provider that a table describes.
* `tableOfProvider` — the table that describes a provider, every field written out.
* `load` — the provider that a configuration file and an environment describe.
-/

namespace LabelQuery.Settings

/-! ## Errors -/

/-- What the settings ask for at some place. -/
inductive Shape
  | text
  | boolean
  | table
  | metric
  deriving DecidableEq, Repr

def Shape.words : Shape → String
  | text => "a string"
  | boolean => "a boolean"
  | table => "a map"
  | metric => "struct MetricConfig"

/-- What is wrong with a value. -/
inductive Fault
  | mismatch (found : Value) (expected : Shape)
  | missing (field : String)
  /-- A metric is given as a sequence without values. -/
  | noValues

def Fault.message : Fault → String
  | .mismatch found expected => s!"invalid type: found {found.kind}, expected {expected.words}"
  | .missing field => "missing field \x60" ++ field ++ "\x60"
  | .noValues => "invalid length 0, expected struct MetricConfig with 2 elements"

/-- Why settings could not be loaded. -/
inductive LoadError
  | unreadable
  /-- The value at a path of keys is wrong. A place in a sequence counts as a key. -/
  | rejected (fault : Fault) (path : List String)

/-- An error with one key more at the start of its path. -/
def LoadError.under (key : String) : LoadError → LoadError
  | .unreadable => .unreadable
  | .rejected fault path => .rejected fault (key :: path)

/-! ## Names of fields -/

def clusterNameField : String := "cluster_name"

def metricsField : String := "external_metrics"

def queryField : String := "query"

/-- The field of a metric that restricts it to the cluster. -/
def clusterFilterField : String := "add_cluster_filter"

/-! ## Reading values -/

/-- Reading a value that stands under a key; an error tells the key. -/
def under {α : Type} (key : String) (result : Except LoadError α) : Except LoadError α :=
  result.mapError (LoadError.under key)

def textOf : Value → Except LoadError String
  | .text s => .ok s
  | value => .error (.rejected (.mismatch value .text) [])

def boolOf : Value → Except LoadError Bool
  | .bool b => .ok b
  | value => .error (.rejected (.mismatch value .boolean) [])

def tableOf : Value → Except LoadError Table
  | .table entries => .ok entries
  | value => .error (.rejected (.mismatch value .table) [])

/-- What `read` makes of the value under a key, or a default if the key is left out. -/
def fieldOr {α : Type} (key : String) (default : α) (read : Value → Except LoadError α)
    (entries : Table) : Except LoadError α :=
  match entries.find? key with
  | some value => under key (read value)
  | none => .ok default

/-- What `read` makes of the value under a key, which must be there. -/
def field {α : Type} (key : String) (read : Value → Except LoadError α) (entries : Table) :
    Except LoadError α :=
  match entries.find? key with
  | some value => under key (read value)
  | none => .error (.rejected (.missing key) [])

/-! ## Providers -/

/-- The metric that a value describes: a table of fields, or a sequence of the query and, if given,
whether it is restricted to the cluster. Further values of a sequence count for nothing. -/
def metricOf : Value → Except LoadError Metric
  | .table entries => do
    let clusterFilter ← fieldOr clusterFilterField false boolOf entries
    let query ← field queryField textOf entries
    return { query, clusterFilter }
  | .sequence [] => .error (.rejected .noValues [])
  | .sequence [query] => do
    let query ← under "0" (textOf query)
    return { query, clusterFilter := false }
  | .sequence (query :: clusterFilter :: _) => do
    let query ← under "0" (textOf query)
    let clusterFilter ← under "1" (boolOf clusterFilter)
    return { query, clusterFilter }
  | value => .error (.rejected (.mismatch value .metric) [])

/-- The metrics that the entries of a table describe. -/
def metricsOfEntries : List (String × Value) → Except LoadError (KeyMap Metric)
  | [] => .ok .empty
  | (name, value) :: entries => do
    let metric ← under name (metricOf value)
    let metrics ← metricsOfEntries entries
    return metrics.insert name metric

def metricsOf (value : Value) : Except LoadError (KeyMap Metric) := do
  metricsOfEntries (← tableOf value)

/-- The provider that a table describes. The name of the cluster is looked at before the metrics. -/
def providerOfTable (entries : Table) : Except LoadError Provider := do
  let clusterName ← fieldOr clusterNameField "" textOf entries
  let metrics ← fieldOr metricsField .empty metricsOf entries
  return { clusterName, metrics }

/-! ## Writing a provider out -/

def valueOfMetric (m : Metric) : Value :=
  .table [(clusterFilterField, .bool m.clusterFilter), (queryField, .text m.query)]

/-- The table that describes a provider, every field written out, in the order of the keys. -/
def tableOfProvider (p : Provider) : Table :=
  [(clusterNameField, .text p.clusterName),
    (metricsField, .table (p.metrics.entries.map fun (name, m) => (name, valueOfMetric m)))]

/-! ## Files and environments -/

/-- The settings in a configuration file; a missing file has none. -/
def tableOfFile (file : Option String) : Except LoadError Table :=
  match file with
  | none => .ok []
  | some text =>
    match tableOfDocument? text with
    | some table => .ok table
    | none => .error .unreadable

/-- The provider that a configuration file and an environment describe. -/
def load (file : Option String) (env : Environment) : Except LoadError Provider := do
  let table ← tableOfFile file
  providerOfTable (Table.overlay table (tableOfEnvironment env))

end LabelQuery.Settings
