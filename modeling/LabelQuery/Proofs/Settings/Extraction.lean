import LabelQuery.Proofs.KeyMap
import LabelQuery.Settings.Load

/-!
# Settings — which provider a table describes

Extraction goes through a table in the order of the keys and stops at the first fault. Where it
comes to the end, only what stands under the keys of the fields has counted.

* `fieldOr_eq_ok_iff`, `field_eq_ok_iff` — one field.
* `fieldOr_insert_self`, `fieldOr_insert_of_ne` — one field after an entry was set.
* `metricOf_table_eq_ok_iff` — the metric that a table describes.
* `metricsOfEntries_eq_ok_iff` — the metrics that entries describe: every entry is a metric, and of
  two under one name the first counts.
* `providerOfTable_eq_ok_iff` — the provider that a table describes.
-/

namespace LabelQuery.Settings

/-! ## Single values -/

/-- Two readings in a row come to an end if both do. Extraction is taken apart with this, without a
look at its errors. -/
theorem bind_eq_ok_iff {ε α β : Type} {x : Except ε α} {f : α → Except ε β} {b : β} :
    (x >>= f) = .ok b ↔ ∃ a, x = .ok a ∧ f a = .ok b := by
  cases x with
  | error e => exact ⟨nofun, nofun⟩
  | ok a => exact ⟨fun h => ⟨a, rfl, h⟩, fun ⟨_, ha, hb⟩ => Except.ok.inj ha ▸ hb⟩

/-- The key that is put before an error does not matter to a success. -/
theorem under_eq_ok_iff {α : Type} {key : String} {result : Except LoadError α} {a : α} :
    under key result = .ok a ↔ result = .ok a := by
  cases result with
  | error e => exact ⟨nofun, nofun⟩
  | ok _ => exact Iff.rfl

theorem tableOf_eq_ok_iff {v : Value} {entries : Table} :
    tableOf v = .ok entries ↔ v = .table entries := by
  cases v <;> simp [tableOf]

/-! ## Fields -/

section

variable {α : Type} {key : String} {default a : α} {read : Value → Except LoadError α}
  {entries : Table}

/-- A field with a default is the default if it is missing, and what is read from its value if it is
there. -/
theorem fieldOr_eq_ok_iff : fieldOr key default read entries = .ok a ↔
    (entries.find? key = none ∧ a = default) ∨
      ∃ v, entries.find? key = some v ∧ read v = .ok a := by
  unfold fieldOr
  cases entries.find? key with
  | none => simp [eq_comm]
  | some v => simp [under_eq_ok_iff]

/-- What a field says depends on the entries only by the value found at its key, also where it is an
error. -/
theorem fieldOr_congr {entries' : Table} (h : entries'.find? key = entries.find? key) :
    fieldOr key default read entries' = fieldOr key default read entries := by
  unfold fieldOr
  rw [h]

theorem field_congr {entries' : Table} (h : entries'.find? key = entries.find? key) :
    field key read entries' = field key read entries := by
  unfold field
  rw [h]

theorem fieldOr_insert_self (value : Value) :
    fieldOr key default read (entries.insert key value) = under key (read value) := by
  unfold fieldOr
  rw [Entries.find?_insert_self]

theorem fieldOr_insert_of_ne {other : String} (h : key ≠ other) (value : Value) :
    fieldOr key default read (entries.insert other value) = fieldOr key default read entries :=
  fieldOr_congr (Entries.find?_insert_of_ne h value entries)

theorem field_insert_of_ne {other : String} (h : key ≠ other) (value : Value) :
    field key read (entries.insert other value) = field key read entries :=
  field_congr (Entries.find?_insert_of_ne h value entries)

/-- A field without a default must be there. -/
theorem field_eq_ok_iff :
    field key read entries = .ok a ↔ ∃ v, entries.find? key = some v ∧ read v = .ok a := by
  unfold field
  cases entries.find? key with
  | none => simp
  | some v => simp [under_eq_ok_iff]

end

/-! ## Metrics -/

/-- The metric that a table describes: its two fields, one with a default, are read apart from each
other. -/
theorem metricOf_table_eq_ok_iff {entries : Table} {m : Metric} :
    metricOf (.table entries) = .ok m ↔
      fieldOr clusterFilterField false boolOf entries = .ok m.clusterFilter ∧
      field queryField textOf entries = .ok m.query := by
  obtain ⟨query, clusterFilter⟩ := m
  simp only [metricOf, bind_eq_ok_iff]
  constructor
  · rintro ⟨_, hfilter, _, hquery, heq⟩
    cases heq
    exact ⟨hfilter, hquery⟩
  · rintro ⟨hfilter, hquery⟩
    exact ⟨_, hfilter, _, hquery, rfl⟩

/-- One step through the entries: the first is a metric, and it is put into the map of the
others. -/
theorem metricsOfEntries_cons_eq_ok_iff {name : String} {v : Value} {entries : Table}
    {metrics : KeyMap Metric} :
    metricsOfEntries ((name, v) :: entries) = .ok metrics ↔ ∃ m, metricOf v = .ok m ∧
      ∃ others, metricsOfEntries entries = .ok others ∧ others.insert name m = metrics := by
  simp only [metricsOfEntries, bind_eq_ok_iff, under_eq_ok_iff]
  constructor
  · rintro ⟨m, hm, others, hothers, heq⟩
    exact ⟨m, hm, others, hothers, Except.ok.inj heq⟩
  · rintro ⟨m, hm, others, hothers, rfl⟩
    exact ⟨m, hm, others, hothers, rfl⟩

/-- Entries that are all metrics describe a map of metrics. Induction on the entries. -/
theorem exists_metricsOfEntries {entries : Table} (h : ∀ e ∈ entries, ∃ m, metricOf e.2 = .ok m) :
    ∃ metrics, metricsOfEntries entries = .ok metrics := by
  induction entries with
  | nil => exact ⟨.empty, rfl⟩
  | cons e entries ih =>
    obtain ⟨m, hm⟩ := h e List.mem_cons_self
    obtain ⟨others, hothers⟩ := ih fun e he => h e (List.mem_cons_of_mem _ he)
    exact ⟨_, metricsOfEntries_cons_eq_ok_iff.2 ⟨m, hm, others, hothers, rfl⟩⟩

/-- If entries describe metrics, every one of them is a metric, also one that is hidden by another
under its name. -/
theorem metricOf_of_metricsOfEntries {entries : Table} {metrics : KeyMap Metric}
    (h : metricsOfEntries entries = .ok metrics) : ∀ e ∈ entries, ∃ m, metricOf e.2 = .ok m := by
  induction entries generalizing metrics with
  | nil => exact nofun
  | cons e entries ih =>
    obtain ⟨m, hm, others, hothers, -⟩ := metricsOfEntries_cons_eq_ok_iff.1 h
    exact List.forall_mem_cons.2 ⟨⟨m, hm⟩, ih hothers⟩

/-- The first entry of a name is the last to be put in, so it is the one that stays. Induction on
the entries; the map of the later ones is there first. -/
theorem find?_metricsOfEntries {entries : Table} {metrics : KeyMap Metric}
    (h : metricsOfEntries entries = .ok metrics) (name : String) (m : Metric) :
    metrics.find? name = some m ↔ ∃ v, entries.find? name = some v ∧ metricOf v = .ok m := by
  induction entries generalizing metrics with
  | nil =>
    cases h
    exact ⟨nofun, nofun⟩
  | cons e entries ih =>
    obtain ⟨key, v⟩ := e
    obtain ⟨m', hm', others, hothers, rfl⟩ := metricsOfEntries_cons_eq_ok_iff.1 h
    -- the first entry decides for its own name, and the others for all other names
    rw [KeyMap.find?_insert, Entries.find?]
    by_cases heq : key = name
    · simp [heq, hm']
    · simp [heq, Ne.symm heq, ih hothers]

/-- **The metrics that entries describe.** Every entry is a metric, and under each name the map
holds what the first entry of that name says. -/
theorem metricsOfEntries_eq_ok_iff {entries : Table} {metrics : KeyMap Metric} :
    metricsOfEntries entries = .ok metrics ↔
      (∀ e ∈ entries, ∃ m, metricOf e.2 = .ok m) ∧
      ∀ name m, metrics.find? name = some m ↔
        ∃ v, entries.find? name = some v ∧ metricOf v = .ok m := by
  refine ⟨fun h => ⟨metricOf_of_metricsOfEntries h, find?_metricsOfEntries h⟩, ?_⟩
  rintro ⟨hall, hfind⟩
  -- the entries describe some map, which holds the same under every name
  obtain ⟨metrics', h⟩ := exists_metricsOfEntries hall
  -- a map is what it holds
  have heq : metrics' = metrics := KeyMap.ext_find? fun name =>
    Option.ext fun m => (find?_metricsOfEntries h name m).trans (hfind name m).symm
  rw [h, heq]

theorem metricsOf_eq_ok_iff {v : Value} {metrics : KeyMap Metric} : metricsOf v = .ok metrics ↔
    ∃ entries, v = .table entries ∧ metricsOfEntries entries = .ok metrics := by
  simp only [metricsOf, bind_eq_ok_iff, tableOf_eq_ok_iff]

/-! ## Providers -/

/-- **The provider that a table describes.** Both of its fields may be missing, and nothing else in
the table is read. -/
theorem providerOfTable_eq_ok_iff {entries : Table} {p : Provider} :
    providerOfTable entries = .ok p ↔
      fieldOr clusterNameField "" textOf entries = .ok p.clusterName ∧
      fieldOr metricsField .empty metricsOf entries = .ok p.metrics := by
  obtain ⟨clusterName, metrics⟩ := p
  simp only [providerOfTable, bind_eq_ok_iff]
  constructor
  · rintro ⟨_, hname, _, hmetrics, heq⟩
    cases heq
    exact ⟨hname, hmetrics⟩
  · rintro ⟨hname, hmetrics⟩
    exact ⟨_, hname, _, hmetrics, rfl⟩

end LabelQuery.Settings
