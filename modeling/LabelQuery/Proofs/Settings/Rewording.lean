import LabelQuery.Proofs.Settings.Extraction

/-!
# Settings — other tables for the same provider

A provider can be written out as a table, every field with its value. The same provider is described
by many other tables: a field may be left out if its default says the same, and entries under keys
that name no field may be added, wherever they stand in the order of keys and whatever they hold.

* `providerOfTable_tableOfProvider` — a provider that is written out is read back.
* `Rewording` — one such change of a table, and `Rewording.Keeps`, when it says the same.
* `providerOfTable_reword` — one rewording of any table for a provider.
* `providerOfTable_rewordings` — any rewordings of the table that is written out.
-/

namespace LabelQuery

/-! ## Changing entries -/

namespace Entries

variable {α β : Type}

/-- The entries without those of a key. -/
def erase (key : String) (es : Entries α) : Entries α :=
  es.filter fun e => e.1 ≠ key

/-- The entries with the values of a key changed. -/
def modify (key : String) (change : α → α) (es : Entries α) : Entries α :=
  es.map fun e => (e.1, if e.1 = key then change e.2 else e.2)

/-- Without the entries of a key nothing is found there, and the same as before elsewhere. Induction
on the entries; all of the key are dropped, so what they hid does not show. -/
theorem find?_erase (key : String) (es : Entries α) (k : String) :
    find? (erase key es) k = if k = key then none else find? es k := by
  induction es with
  | nil => simp [erase, find?]
  | cons e es ih =>
    obtain ⟨k', v⟩ := e
    by_cases hkey : k' = key
    · -- the entry in front is dropped, and nothing of its key comes back
      have hdropped : erase key ((k', v) :: es) = erase key es :=
        List.filter_cons_of_neg (by simpa using hkey)
      rw [hdropped, ih]
      by_cases hk : k = key
      · rw [if_pos hk, if_pos hk]
      · rw [if_neg hk, if_neg hk, find?, if_neg (hkey ▸ Ne.symm hk)]
    · have hkept : erase key ((k', v) :: es) = (k', v) :: erase key es :=
        List.filter_cons_of_pos (by simpa using hkey)
      rw [hkept, find?, find?, ih]
      by_cases hk : k' = k
      · rw [if_pos hk, if_pos hk, if_neg (hk ▸ hkey)]
      · rw [if_neg hk, if_neg hk]

theorem find?_erase_self (key : String) (es : Entries α) : find? (erase key es) key = none := by
  rw [find?_erase, if_pos rfl]

theorem find?_erase_of_ne {key k : String} (h : k ≠ key) (es : Entries α) :
    find? (erase key es) k = find? es k := by
  rw [find?_erase, if_neg h]

theorem find?_map (f : String → α → β) (es : Entries α) (k : String) :
    find? (es.map fun e => (e.1, f e.1 e.2)) k = (find? es k).map (f k) := by
  induction es with
  | nil => rfl
  | cons e es ih =>
    obtain ⟨k', v⟩ := e
    by_cases hk : k' = k <;> simp [find?, hk, ih]

theorem find?_modify (key : String) (change : α → α) (es : Entries α) (k : String) :
    find? (modify key change es) k =
      (find? es k).map fun v => if k = key then change v else v :=
  find?_map (fun k v => if k = key then change v else v) es k

theorem find?_modify_self (key : String) (change : α → α) (es : Entries α) :
    find? (modify key change es) key = (find? es key).map change := by
  rw [find?_modify]
  simp only [if_true]

theorem find?_modify_of_ne {key k : String} (h : k ≠ key) (change : α → α) (es : Entries α) :
    find? (modify key change es) k = find? es k := by
  rw [find?_modify]
  simp only [if_neg h, Option.map_id']

end Entries

namespace Settings

/-! ## A provider written out -/

theorem metricOf_valueOfMetric (m : Metric) : metricOf (valueOfMetric m) = .ok m := by
  rw [valueOfMetric, metricOf_table_eq_ok_iff, fieldOr_eq_ok_iff, field_eq_ok_iff]
  exact ⟨.inr ⟨_, rfl, rfl⟩, _, rfl, rfl⟩

/-- Metrics that are written out are read back: every entry is a metric, and under each name stands
the one of the map. -/
theorem metricsOfEntries_valueOfMetric (metrics : KeyMap Metric) :
    metricsOfEntries (metrics.entries.map fun e => (e.1, valueOfMetric e.2)) = .ok metrics := by
  rw [metricsOfEntries_eq_ok_iff]
  constructor
  · rintro _ he
    obtain ⟨e, -, rfl⟩ := List.mem_map.1 he
    exact ⟨e.2, metricOf_valueOfMetric e.2⟩
  · intro name m
    rw [Entries.find?_map fun _ => valueOfMetric]
    constructor
    · intro hm
      exact ⟨valueOfMetric m, congrArg (Option.map valueOfMetric) hm, metricOf_valueOfMetric m⟩
    · rintro ⟨v, hv, hread⟩
      -- what is found was written out, so it is read back as itself
      obtain ⟨m', hm', rfl⟩ := Option.map_eq_some_iff.1 hv
      rw [metricOf_valueOfMetric] at hread
      rw [← Except.ok.inj hread]
      exact hm'

/-- **A provider that is written out is read back.** Both fields are there, and each says what it
was written for. -/
theorem providerOfTable_tableOfProvider (p : Provider) :
    providerOfTable (tableOfProvider p) = .ok p := by
  rw [providerOfTable_eq_ok_iff, fieldOr_eq_ok_iff, fieldOr_eq_ok_iff]
  refine ⟨.inr ⟨_, rfl, rfl⟩, .inr ⟨_, rfl, ?_⟩⟩
  exact metricsOfEntries_valueOfMetric p.metrics

/-! ## Rewordings -/

/-- A table in a value changed; what is no table stays. -/
def Value.inTable (change : Table → Table) : Value → Value
  | .table entries => .table (change entries)
  | v => v

/-- A change of a table that does not mean to change the provider it describes. -/
inductive Rewording
  | omitClusterName
  | omitMetrics
  | omitClusterFilter (metric : String)
  /-- An entry is put into the table. -/
  | add (key : String) (value : Value)
  /-- An entry is put into the table of a metric. -/
  | addTo (metric key : String) (value : Value)

/-- A table with a change in the table of one metric. -/
def inMetric (metric : String) (change : Table → Table) (t : Table) : Table :=
  t.modify metricsField (Value.inTable fun metrics => metrics.modify metric (Value.inTable change))

/-- The table after a rewording. -/
def Rewording.apply : Rewording → Table → Table
  | omitClusterName, t => t.erase clusterNameField
  | omitMetrics, t => t.erase metricsField
  | omitClusterFilter metric, t => inMetric metric (Entries.erase clusterFilterField) t
  | add key value, t => t.insert key value
  | addTo metric key value, t => inMetric metric (Entries.insert key value) t

/-- What is left out of a provider's table is said by a default, and what is put in is no field. -/
def Rewording.Keeps (p : Provider) : Rewording → Prop
  | omitClusterName => p.clusterName = ""
  | omitMetrics => p.metrics = .empty
  | omitClusterFilter metric => ∀ m, p.metric? metric = some m → m.clusterFilter = false
  | add key _ => key ≠ clusterNameField ∧ key ≠ metricsField
  | addTo _ key _ => key ≠ queryField ∧ key ≠ clusterFilterField

/-! ## One rewording -/

/-- The metric that a table describes stays if an entry is put in that is no field. -/
theorem metricOf_insert {key : String} (value : Value) (entries : Table) {m : Metric}
    (hquery : key ≠ queryField) (hfilter : key ≠ clusterFilterField)
    (h : metricOf (.table entries) = .ok m) :
    metricOf (.table (Entries.insert key value entries)) = .ok m := by
  obtain ⟨hread, hread'⟩ := metricOf_table_eq_ok_iff.1 h
  exact metricOf_table_eq_ok_iff.2
    ⟨(fieldOr_insert_of_ne hfilter.symm value).trans hread,
      (field_insert_of_ne hquery.symm value).trans hread'⟩

/-- Without its field for the cluster a table describes the metric that is not restricted, whatever
the field said. -/
theorem metricOf_erase {entries : Table} {m : Metric} (h : metricOf (.table entries) = .ok m) :
    metricOf (.table (Entries.erase clusterFilterField entries)) =
      .ok { m with clusterFilter := false } := by
  obtain ⟨-, hquery⟩ := metricOf_table_eq_ok_iff.1 h
  refine metricOf_table_eq_ok_iff.2 ⟨?_, ?_⟩
  · exact fieldOr_eq_ok_iff.2 (.inl ⟨Entries.find?_erase_self _ entries, rfl⟩)
  · exact (field_congr (Entries.find?_erase_of_ne (by decide) entries)).trans hquery

/-- A change under one name leaves the metrics as they are if it leaves every value a metric, and
the one that is found under the name that metric. Entries that are hidden by others have to stay
metrics, but may become different ones. -/
theorem metricsOfEntries_modify {entries : Table} {metrics : KeyMap Metric} {name : String}
    {change : Value → Value} (h : metricsOfEntries entries = .ok metrics)
    (hchange : ∀ v m, metricOf v = .ok m → ∃ m', metricOf (change v) = .ok m' ∧
      (metrics.find? name = some m → m' = m)) :
    metricsOfEntries (entries.modify name change) = .ok metrics := by
  obtain ⟨hall, hfind⟩ := metricsOfEntries_eq_ok_iff.1 h
  refine metricsOfEntries_eq_ok_iff.2 ⟨fun _ hmem => ?_, fun n m => ?_⟩
  · obtain ⟨e, he, rfl⟩ := List.mem_map.1 hmem
    obtain ⟨m, hm⟩ := hall e he
    by_cases heq : e.1 = name
    · obtain ⟨m', hm', -⟩ := hchange _ m hm
      exact ⟨m', by simpa [heq] using hm'⟩
    · exact ⟨m, by simpa [heq] using hm⟩
  · rw [hfind, Entries.find?_modify]
    by_cases heq : n = name
    · -- under the name itself, what is found is the changed value
      cases hv : entries.find? n with
      | none => simp
      | some v =>
        obtain ⟨m₀, hm₀⟩ := hall _ (Entries.mem_of_find? hv)
        obtain ⟨m', hm', hsame⟩ := hchange v m₀ hm₀
        have hfound : metrics.find? name = some m₀ := heq ▸ (hfind n m₀).2 ⟨v, hv, hm₀⟩
        rw [hsame hfound] at hm'
        simp [heq, hm₀, hm']
    · simp [heq]

/-- A change in the table of one metric that leaves this metric as it is, and others metrics. Values
that are no tables are not touched. -/
theorem providerOfTable_inMetric {t : Table} {p : Provider} {name : String}
    {change : Table → Table} (h : providerOfTable t = .ok p)
    (hchange : ∀ entries m, metricOf (.table entries) = .ok m →
      ∃ m', metricOf (.table (change entries)) = .ok m' ∧ (p.metric? name = some m → m' = m)) :
    providerOfTable (inMetric name change t) = .ok p := by
  obtain ⟨hcluster, hmetrics⟩ := providerOfTable_eq_ok_iff.1 h
  -- a metric may be described by a sequence, which the change leaves alone
  have hvalue : ∀ v m, metricOf v = .ok m → ∃ m', metricOf (v.inTable change) = .ok m' ∧
      (p.metrics.find? name = some m → m' = m) := by
    intro v m hm
    cases v with
    | table entries => exact hchange entries m hm
    | _ => exact ⟨m, hm, fun _ => rfl⟩
  refine providerOfTable_eq_ok_iff.2 ⟨?_, ?_⟩
  · exact (fieldOr_congr (Entries.find?_modify_of_ne (by decide) _ t)).trans hcluster
  · rw [fieldOr_eq_ok_iff] at hmetrics ⊢
    rw [inMetric, Entries.find?_modify_self]
    -- without metrics in the table there is nothing to change
    rcases hmetrics with ⟨hnone, hdefault⟩ | ⟨v, hv, hread⟩
    · exact .inl ⟨by rw [hnone, Option.map_none], hdefault⟩
    · obtain ⟨entries, rfl, hentries⟩ := metricsOf_eq_ok_iff.1 hread
      refine .inr ⟨_, by rw [hv, Option.map_some], ?_⟩
      exact metricsOf_eq_ok_iff.2 ⟨_, rfl, metricsOfEntries_modify hentries hvalue⟩

/-- **A rewording says the same**, of any table that describes the provider. One case for each
rewording, in which one field changes and the others are found as before. -/
theorem providerOfTable_reword {t : Table} {p : Provider} (h : providerOfTable t = .ok p)
    {r : Rewording} (hkeeps : r.Keeps p) : providerOfTable (r.apply t) = .ok p := by
  obtain ⟨hcluster, hmetrics⟩ := providerOfTable_eq_ok_iff.1 h
  cases r with
  | omitClusterName =>
    -- what is left out is said by the default
    refine providerOfTable_eq_ok_iff.2 ⟨?_, ?_⟩
    · exact fieldOr_eq_ok_iff.2 (.inl ⟨Entries.find?_erase_self _ t, hkeeps⟩)
    · exact (fieldOr_congr (Entries.find?_erase_of_ne (by decide) t)).trans hmetrics
  | omitMetrics =>
    refine providerOfTable_eq_ok_iff.2 ⟨?_, ?_⟩
    · exact (fieldOr_congr (Entries.find?_erase_of_ne (by decide) t)).trans hcluster
    · exact fieldOr_eq_ok_iff.2 (.inl ⟨Entries.find?_erase_self _ t, hkeeps⟩)
  | omitClusterFilter metric =>
    -- the table of the metric may be hidden by another one of its name, which then says nothing
    refine providerOfTable_inMetric h fun entries m hm => ⟨_, metricOf_erase hm, fun hfound => ?_⟩
    rw [← hkeeps m hfound]
  | add key value =>
    -- what is put in is read by no field
    obtain ⟨hname, hfield⟩ := hkeeps
    exact providerOfTable_eq_ok_iff.2
      ⟨(fieldOr_insert_of_ne hname.symm value).trans hcluster,
        (fieldOr_insert_of_ne hfield.symm value).trans hmetrics⟩
  | addTo metric key value =>
    obtain ⟨hquery, hfilter⟩ := hkeeps
    exact providerOfTable_inMetric h fun entries m hm =>
      ⟨m, metricOf_insert value entries hquery hfilter hm, fun _ => rfl⟩

/-! ## Any rewordings -/

/-- Rewordings one after another. Induction on the rewordings, for any table that describes the
provider, as the table changes with each of them. -/
theorem providerOfTable_foldl {t : Table} {p : Provider} (h : providerOfTable t = .ok p)
    {rewordings : List Rewording} (hkeep : ∀ r ∈ rewordings, r.Keeps p) :
    providerOfTable (rewordings.foldl (fun t r => r.apply t) t) = .ok p := by
  induction rewordings generalizing t with
  | nil => exact h
  | cons r rewordings ih =>
    obtain ⟨hr, hkeep⟩ := List.forall_mem_cons.1 hkeep
    exact ih (providerOfTable_reword h hr) hkeep

/-- **Extraction undoes writing out**, whatever defaults are then left out and whatever entries are
put in that are no fields. -/
theorem providerOfTable_rewordings {p : Provider} {rewordings : List Rewording}
    (h : ∀ r ∈ rewordings, r.Keeps p) :
    providerOfTable (rewordings.foldl (fun t r => r.apply t) (tableOfProvider p)) = .ok p :=
  providerOfTable_foldl (providerOfTable_tableOfProvider p) h

/-- A key before all fields of a provider, and one between those of a metric. -/
theorem providerOfTable_without_defaults :
    providerOfTable [("a", .natural 1),
      ("external_metrics", .table [("cpu", .table [("note", .sequence []), ("query", .text "q")])])] =
        .ok ⟨"", KeyMap.empty.insert "cpu" ⟨"q", false⟩⟩ := by
  have hkeep : ∀ r ∈ [Rewording.omitClusterName, .omitClusterFilter "cpu", .add "a" (.natural 1),
      .addTo "cpu" "note" (.sequence [])], r.Keeps ⟨"", KeyMap.empty.insert "cpu" ⟨"q", false⟩⟩ := by
    refine List.forall_mem_cons.2 ⟨rfl, List.forall_mem_cons.2 ⟨?_, List.forall_mem_cons.2
      ⟨⟨by decide, by decide⟩, List.forall_mem_singleton.2 ⟨by decide, by decide⟩⟩⟩⟩
    rintro _ ⟨⟩
    rfl
  exact providerOfTable_rewordings hkeep

end Settings

end LabelQuery
