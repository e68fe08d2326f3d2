import LabelQuery.Proofs.Settings.Extraction
import LabelQuery.Proofs.Settings.VariableName
import LabelQuery.Proofs.Settings.Word
import LabelQuery.Settings.Load

/-!
# Settings — one variable over a file

A variable of the environment is laid over the file at the end of its path of keys. Tables on the way
are joined, so that everything beside the path stays what it is in the file.

* `load_singleton` — a file with one variable over it.
* `load_clusterFilter` — a variable for the cluster filter of one metric changes this and nothing
  else.
* `load_clusterName` — a variable for the name of the cluster changes this and nothing else, if its
  value is a text; if it looks like a truth value or a number, the name is refused.
-/

namespace LabelQuery.Settings

open Text Number Label

/-! ## One value over a table -/

/-- What is no table replaces what was there, a table too. -/
theorem Value.overlay_of_ne_table (old : Value) {v : Value} (h : ∀ entries, v ≠ .table entries) :
    old.overlay v = v := by
  cases v with
  | table entries => exact absurd rfl (h entries)
  | _ => rfl

theorem Value.overlay_table (entries new : Table) :
    (Value.table entries).overlay (.table new) = .table (entries.overlay new) := by
  rw [Value.overlay]
  rfl

/-- A table with one entry laid over another sets this entry, by what was found at its key. -/
theorem Table.overlay_singleton (t : Table) (key : String) (v : Value) :
    Table.overlay t [(key, v)] = t.insert key ((t.find? key).elim v (·.overlay v)) := by
  rw [Table.overlay, overlayEntries, overlayEntries]
  cases t.find? key <;> rfl

/-- A value at the end of a path is laid over a table where the path leads. It sets the entry of the
first key, and goes on below it. -/
theorem Value.overlay_nest_cons (entries : Table) (v : Value) (key : String) (path : List String) :
    (Value.table entries).overlay (v.nest (key :: path)) =
      .table (entries.insert key
        ((entries.find? key).elim (v.nest path) (·.overlay (v.nest path)))) := by
  rw [Value.nest, Value.overlay_table, Table.overlay_singleton]

/-- What is no table stands at its place as it is, whatever was there. -/
theorem elim_overlay_of_ne_table (old : Option Value) {v : Value}
    (h : ∀ entries, v ≠ .table entries) : old.elim v (·.overlay v) = v := by
  cases old with
  | none => rfl
  | some old => exact old.overlay_of_ne_table h

/-! ## One variable over a file -/

theorem tableOfVariable_of_some {v : Variable} {path : List String} (h : path? v.name = some path) :
    tableOfVariable v = tableAt (Value.ofText v.value) path := by
  unfold tableOfVariable
  rw [h]

/-- An environment of one variable is a table with one entry, under the first key of its path. -/
theorem tableOfEnvironment_singleton {name value key : String} {path : List String}
    (h : path? name = some (key :: path)) :
    tableOfEnvironment [⟨name, value⟩] = [(key, (Value.ofText value).nest path)] := by
  have hvariable : tableOfVariable ⟨name, value⟩ = [(key, (Value.ofText value).nest path)] :=
    tableOfVariable_of_some (v := ⟨name, value⟩) h
  show Table.overlay [] (tableOfVariable ⟨name, value⟩) = _
  rw [hvariable, Table.overlay_singleton]
  rfl

/-- A success is known from its value. Errors need not be compared then, so that a concrete load can
be computed. -/
theorem eq_ok_of_toOption {ε α : Type} {x : Except ε α} {a : α} (h : x.toOption = some a) :
    x = .ok a := by
  cases x with
  | error e => cases h
  | ok b => exact congrArg Except.ok (Option.some.inj h)

/-- A file that is read is loaded with the environment laid over its table. -/
theorem load_of_tableOfFile {file : Option String} {t : Table} (h : tableOfFile file = .ok t)
    (env : Environment) :
    load file env = providerOfTable (Table.overlay t (tableOfEnvironment env)) := by
  unfold load
  rw [h]
  rfl

/-- A file that is loaded by itself holds a table for the provider: an empty environment changes
nothing. -/
theorem exists_tableOfFile {file : Option String} {p : Provider} (h : load file [] = .ok p) :
    ∃ t, tableOfFile file = .ok t ∧ providerOfTable t = .ok p := by
  -- reading the file comes first, so it succeeded
  obtain ⟨t, ht, -⟩ := bind_eq_ok_iff.1 h
  rw [load_of_tableOfFile ht] at h
  exact ⟨t, ht, h⟩

/-- **A file with one variable over it.** Its table is changed at the first key of the path only. -/
theorem load_singleton {file : Option String} {t : Table} (ht : tableOfFile file = .ok t)
    {name key : String} {path : List String} (h : path? name = some (key :: path)) {value : String}
    {v : Value} (hv : Value.ofText value = v) :
    load file [⟨name, value⟩] =
      providerOfTable (t.insert key ((t.find? key).elim (v.nest path) (·.overlay (v.nest path)))) := by
  rw [load_of_tableOfFile ht, tableOfEnvironment_singleton h, Table.overlay_singleton, hv]

/-! ## The cluster filter of a metric -/

/-- The metrics that entries describe, with the entry of one name set. The new entry is the first of
its name wherever it stands. -/
theorem metricsOfEntries_insert {entries : Table} {metrics : KeyMap Metric} {name : String}
    {v : Value} {m : Metric} (h : metricsOfEntries entries = .ok metrics)
    (hv : metricOf v = .ok m) :
    metricsOfEntries (entries.insert name v) = .ok (metrics.insert name m) := by
  obtain ⟨hall, hfind⟩ := metricsOfEntries_eq_ok_iff.1 h
  refine metricsOfEntries_eq_ok_iff.2 ⟨fun e he => ?_, fun n m' => ?_⟩
  · rcases Entries.mem_insert he with rfl | he
    · exact ⟨m, hv⟩
    · exact hall e he
  · rw [KeyMap.find?_insert, Entries.find?_insert]
    by_cases heq : n = name
    · simp [heq, hv]
    · simp [heq, hfind]

/-- A table with its field for the cluster set describes the metric with this field changed. -/
theorem metricOf_insert_clusterFilter {fields : Table} {m : Metric}
    (h : metricOf (.table fields) = .ok m) (b : Bool) :
    metricOf (.table (fields.insert clusterFilterField (.bool b))) =
      .ok { m with clusterFilter := b } := by
  obtain ⟨-, hquery⟩ := metricOf_table_eq_ok_iff.1 h
  refine metricOf_table_eq_ok_iff.2 ⟨?_, ?_⟩
  · exact fieldOr_insert_self (.bool b)
  · exact (field_insert_of_ne (by decide) _).trans hquery

/-- The entries of a value that is a table. -/
def Value.fields? : Value → Option Table
  | .table entries => some entries
  | _ => none

theorem Value.fields?_eq_some_iff {v : Value} {entries : Table} :
    v.fields? = some entries ↔ v = .table entries := by
  cases v <;> simp [fields?]

/-- The fields of a metric that a file gives as a table, and not as a sequence. -/
def fieldsOf? (file : Option String) (metric : String) : Option Table := do
  let t ← (tableOfFile file).toOption
  let metrics ← (← t.find? metricsField).fields?
  (← metrics.find? metric).fields?

/-- Where the fields of a metric are found, both tables on the way to them are there. -/
theorem fieldsOf?_eq_some {file : Option String} {metric : String} {t fields : Table}
    (ht : tableOfFile file = .ok t) (h : fieldsOf? file metric = some fields) :
    ∃ metrics : Table, t.find? metricsField = some (.table metrics) ∧
      metrics.find? metric = some (.table fields) := by
  unfold fieldsOf? at h
  rw [ht] at h
  obtain ⟨_, ⟨⟩, h⟩ := Option.bind_eq_some_iff.1 h
  obtain ⟨v, hv, h⟩ := Option.bind_eq_some_iff.1 h
  obtain ⟨metrics, hmetrics, h⟩ := Option.bind_eq_some_iff.1 h
  obtain ⟨w, hw, hfields⟩ := Option.bind_eq_some_iff.1 h
  rw [Value.fields?_eq_some_iff.1 hmetrics] at hv
  rw [Value.fields?_eq_some_iff.1 hfields] at hw
  exact ⟨metrics, hv, hw⟩

/-- Case has no say in whether a key can be told in the name of a variable. -/
theorem IsKeyWord.of_toLower {key : List Char} (h : IsKeyWord (key.map Char.toLower)) :
    IsKeyWord key where
  ne_nil := fun hnil => h.ne_nil (by rw [hnil, List.map_nil])
  no_dot := fun hdot => h.no_dot (List.mem_map_of_mem hdot)
  no_break := fun hbreak => h.no_break (hbreak.map Char.toLower)
  no_end := fun hend => h.no_end (by rw [List.getLast?_map, hend]; rfl)

/-- The name of the variable for the cluster filter of a metric. -/
def clusterFilterVariable (spelling : String) : String :=
  "NRQL__EXTERNAL_METRICS__" ++ spelling ++ "__ADD_CLUSTER_FILTER"

theorem clusterFilterVariable_eq (spelling : String) : clusterFilterVariable spelling = variableName
    ["EXTERNAL_METRICS".toList, spelling.toList, "ADD_CLUSTER_FILTER".toList] := by
  have htoList : (clusterFilterVariable spelling).toList = "NRQL__".toList ++ joinWith ['_', '_']
      ["EXTERNAL_METRICS".toList, spelling.toList, "ADD_CLUSTER_FILTER".toList] := by
    unfold clusterFilterVariable
    simp [joinWith]
  exact String.toList_inj.1 (htoList.trans (toList_variableName _).symm)

/-- The variable leads to the field for the cluster of the metric, in whatever case the metric is
spelt. -/
theorem path?_clusterFilterVariable {metric spelling : String} (h : IsKeyWord metric.toList)
    (hlower : spelling.toList.map Char.toLower = metric.toList) :
    path? (clusterFilterVariable spelling) = some [metricsField, metric, clusterFilterField] := by
  -- the spelling may differ from the metric in case only, and case makes no underscores
  have hkeys : ∀ key ∈ ["EXTERNAL_METRICS".toList, spelling.toList, "ADD_CLUSTER_FILTER".toList],
      IsKeyWord key := by
    refine List.forall_mem_cons.2 ⟨?_, List.forall_mem_cons.2 ⟨?_, List.forall_mem_singleton.2 ?_⟩⟩
    · exact ⟨by decide, by decide, by decide +kernel, by decide⟩
    · exact .of_toLower (hlower ▸ h)
    · exact ⟨by decide, by decide, by decide +kernel, by decide⟩
  have hpath := path?_variableName (List.cons_ne_nil _ _) hkeys
    (by rintro _ ⟨⟩; exact (stops_cons isSpace 'E' _).2 rfl)
    (by rintro _ ⟨⟩; exact (stops_cons isSpace 'R' _).2 rfl)
  have hmetric : String.ofList (spelling.toList.map Char.toLower) = metric := by
    rw [hlower, String.ofList_toList]
  rw [clusterFilterVariable_eq, hpath, List.map_cons, List.map_cons, hmetric]
  rfl

theorem ofText_bool (b : Bool) : Value.ofText (if b then "true" else "false") = .bool b := by
  cases b with
  | false =>
    exact ofText_of_typedWord ⟨List.all_eq_true.1 rfl, ⟨'f', rfl, rfl⟩, ⟨'e', rfl, rfl⟩⟩ .false
  | true =>
    exact ofText_of_typedWord ⟨List.all_eq_true.1 rfl, ⟨'t', rfl, rfl⟩, ⟨'e', rfl, rfl⟩⟩ .true

/-- The provider of a table with one metric's cluster filter set, as an insertion in each of the
three tables on the way. The metric that the provider has is the one that the fields describe, so
only its filter changes. -/
theorem providerOfTable_insert_clusterFilter {t metrics fields : Table} {p : Provider}
    {metric : String} {m : Metric} (h : providerOfTable t = .ok p) (hm : p.metric? metric = some m)
    (hmetrics : t.find? metricsField = some (.table metrics))
    (hfields : metrics.find? metric = some (.table fields)) (b : Bool) :
    providerOfTable (t.insert metricsField (.table (metrics.insert metric
      (.table (fields.insert clusterFilterField (.bool b)))))) =
      .ok (p.withMetric metric { m with clusterFilter := b }) := by
  obtain ⟨hcluster, hread⟩ := providerOfTable_eq_ok_iff.1 h
  -- the metrics of the provider are those of the table that was found
  have hentries : metricsOfEntries metrics = .ok p.metrics := by
    rcases fieldOr_eq_ok_iff.1 hread with ⟨hnone, -⟩ | ⟨v, hv, hread⟩
    · rw [hmetrics] at hnone
      cases hnone
    · obtain ⟨entries, rfl, hentries⟩ := metricsOf_eq_ok_iff.1 hread
      rw [hmetrics] at hv
      cases hv
      exact hentries
  -- and the metric is what its fields describe
  have hmetric : metricOf (.table fields) = .ok m := by
    obtain ⟨v, hv, hmetric⟩ := (find?_metricsOfEntries hentries metric m).1 hm
    rw [hfields] at hv
    exact Option.some.inj hv ▸ hmetric
  refine providerOfTable_eq_ok_iff.2 ⟨?_, ?_⟩
  · exact (fieldOr_insert_of_ne (by decide) _).trans hcluster
  · rw [fieldOr_insert_self, under_eq_ok_iff, metricsOf_eq_ok_iff]
    exact ⟨_, rfl, metricsOfEntries_insert hentries (metricOf_insert_clusterFilter hmetric b)⟩

/-- **A variable for the cluster filter of one metric changes nothing else.** The file gives the
metric as a table, under a name without capitals that can be told in the name of a variable; there
it is spelt in any case. -/
theorem load_clusterFilter {file : Option String} {p : Provider} {metric spelling : String}
    {m : Metric} (hload : load file [] = .ok p) (hm : p.metric? metric = some m)
    (htable : (fieldsOf? file metric).isSome) (hname : IsKeyWord metric.toList)
    (hlower : ∀ c ∈ metric.toList, ¬ c.isUpper)
    (hspelling : spelling.toList.map Char.toLower = metric.toList.map Char.toLower) (b : Bool) :
    load file [⟨clusterFilterVariable spelling, if b then "true" else "false"⟩] =
      .ok (p.withMetric metric { m with clusterFilter := b }) := by
  obtain ⟨t, ht, hp⟩ := exists_tableOfFile hload
  obtain ⟨fields, htable⟩ := Option.isSome_iff_exists.1 htable
  obtain ⟨metrics, hmetrics, hfields⟩ := fieldsOf?_eq_some ht htable
  -- a name without capitals is its own lower case
  have hsame : metric.toList.map Char.toLower = metric.toList :=
    (List.map_congr_left fun c hc => toLower_of_not_isUpper (hlower c hc)).trans (List.map_id _)
  have hpath := path?_clusterFilterVariable hname (hspelling.trans hsame)
  -- the three keys of the path lead through tables of the file, so that every overlay is an insertion
  rw [load_singleton ht hpath (ofText_bool b), hmetrics, Option.elim_some, Value.overlay_nest_cons,
    hfields, Option.elim_some, Value.overlay_nest_cons, Value.nest,
    elim_overlay_of_ne_table _ fun _ => Value.noConfusion]
  exact providerOfTable_insert_clusterFilter hp hm hmetrics hfields b

/-- A name with an underscore in front, spelt with capitals. -/
theorem load_clusterFilter_underscore :
    load (some "external_metrics._q-1.query = 'q'\nexternal_metrics.b = ['r', true]")
      [⟨clusterFilterVariable "_Q-1", "true"⟩] =
        .ok ⟨"", (KeyMap.empty.insert "b" ⟨"r", true⟩).insert "_q-1" ⟨"q", true⟩⟩ := by
  have hload : load
      (some "external_metrics._q-1.query = 'q'\nexternal_metrics.b = ['r', true]") [] =
        .ok ⟨"", (KeyMap.empty.insert "b" ⟨"r", true⟩).insert "_q-1" ⟨"q", false⟩⟩ :=
    eq_ok_of_toOption (by decide +kernel)
  have hm : (KeyMap.empty.insert "b" ⟨"r", true⟩ |>.insert "_q-1" ⟨"q", false⟩).find? "_q-1" =
      some (⟨"q", false⟩ : Metric) := rfl
  have htable : (fieldsOf?
      (some "external_metrics._q-1.query = 'q'\nexternal_metrics.b = ['r', true]")
      "_q-1").isSome := by decide +kernel
  have hname : IsKeyWord "_q-1".toList := ⟨by decide, by decide, by decide +kernel, by decide⟩
  have hlower : ∀ c ∈ "_q-1".toList, ¬ c.isUpper := by simp
  have hspelling : "_Q-1".toList.map Char.toLower = "_q-1".toList.map Char.toLower := rfl
  exact load_clusterFilter hload hm htable hname hlower hspelling true

/-! ## The name of the cluster -/

/-- The name of the variable for the name of the cluster. -/
def clusterNameVariable : String :=
  "NRQL__CLUSTER_NAME"

theorem path?_clusterNameVariable : path? clusterNameVariable = some [clusterNameField] := by
  decide +kernel

/-- A value that is no table is put into the file's table as the name of the cluster. -/
theorem load_clusterNameVariable {file : Option String} {t : Table} (ht : tableOfFile file = .ok t)
    {name : String} {v : Value} (hv : Value.ofText name = v) (hscalar : ∀ entries, v ≠ .table entries) :
    load file [⟨clusterNameVariable, name⟩] = providerOfTable (t.insert clusterNameField v) := by
  rw [load_singleton ht path?_clusterNameVariable hv, Value.nest,
    elim_overlay_of_ne_table _ hscalar]

/-- A table with a text for the name of the cluster describes the provider with this name, and with
the same metrics. -/
theorem providerOfTable_insert_clusterName {t : Table} {p : Provider} (h : providerOfTable t = .ok p)
    (name : String) : providerOfTable (t.insert clusterNameField (.text name)) =
      .ok { p with clusterName := name } := by
  obtain ⟨-, hmetrics⟩ := providerOfTable_eq_ok_iff.1 h
  refine providerOfTable_eq_ok_iff.2 ⟨?_, ?_⟩
  · exact fieldOr_insert_self (.text name)
  · exact (fieldOr_insert_of_ne (by decide) _).trans hmetrics

/-- A name that is no text is refused, whatever else is in the table. The name is looked at first,
so an error in the metrics would not come before. -/
theorem providerOfTable_insert_of_typedWord (t : Table) {word : List Char} {v : Value}
    (h : TypedWord word v) : providerOfTable (t.insert clusterNameField v) =
      .error (.rejected (.mismatch v .text) [clusterNameField]) := by
  have hread : textOf v = .error (.rejected (.mismatch v .text) []) := by
    cases h <;> rfl
  have hfield : fieldOr clusterNameField "" textOf (t.insert clusterNameField v) =
      .error (.rejected (.mismatch v .text) [clusterNameField]) := by
    rw [fieldOr_insert_self, hread]
    rfl
  rw [providerOfTable, hfield]
  rfl

theorem TypedWord.ne_table {word : List Char} {v : Value} (h : TypedWord word v) (entries : Table) :
    v ≠ .table entries := by
  cases h <;> exact Value.noConfusion

/-- A word is a text if it is no truth value, not made of digits, and holds no point. -/
theorem not_typedWord_of_not_isDigits {word : List Char} {v : Value} (htrue : word ≠ "true".toList)
    (hfalse : word ≠ "false".toList) (hdigits : ¬ IsDigits word) (hpoint : '.' ∉ word) :
    ¬ TypedWord word v := by
  rintro (_ | _ | ⟨hds, _⟩ | ⟨_, hmem, _⟩)
  · exact htrue rfl
  · exact hfalse rfl
  · exact hdigits hds
  · exact hpoint hmem

/-- **A variable for the name of the cluster** takes effect as it is written exactly if the name is
a text. Then the metrics are those of the file. A name that writes a truth value or a number is
refused. -/
theorem load_clusterName {file : Option String} {p : Provider} {name : String}
    (hload : load file [] = .ok p) (hname : IsIdentifier name.toList) :
    (load file [⟨clusterNameVariable, name⟩] = .ok { p with clusterName := name } ↔
      ∀ v, ¬ TypedWord name.toList v) ∧
    ∀ v, TypedWord name.toList v → load file [⟨clusterNameVariable, name⟩] =
      .error (.rejected (.mismatch v .text) [clusterNameField]) := by
  obtain ⟨t, ht, hp⟩ := exists_tableOfFile hload
  -- a value of another kind takes the place of the name, and is then no text
  have hrefused : ∀ v, TypedWord name.toList v → load file [⟨clusterNameVariable, name⟩] =
      .error (.rejected (.mismatch v .text) [clusterNameField]) := by
    intro v hv
    rw [load_clusterNameVariable ht (ofText_of_typedWord hname hv) hv.ne_table,
      providerOfTable_insert_of_typedWord t hv]
  refine ⟨⟨?_, ?_⟩, hrefused⟩
  · intro hok v hv
    rw [hrefused v hv] at hok
    cases hok
  · intro htext
    -- a text is no table, so that it replaces a name that the file gives
    rw [load_clusterNameVariable ht (ofText_of_not_typedWord hname htext)
      fun _ => Value.noConfusion]
    exact providerOfTable_insert_clusterName hp name

/-- A letter makes a name a text, digits alone make it a number. -/
theorem load_clusterName_hyphen :
    load (some "cluster_name = \"prod\"") [⟨clusterNameVariable, "edge-1"⟩] =
        .ok ⟨"edge-1", .empty⟩ ∧
      load (some "cluster_name = \"prod\"") [⟨clusterNameVariable, "007"⟩] =
        .error (.rejected (.mismatch (.natural 7) .text) ["cluster_name"]) := by
  have hload : load (some "cluster_name = \"prod\"") [] = .ok ⟨"prod", .empty⟩ :=
    eq_ok_of_toOption (by decide +kernel)
  have hedge : IsIdentifier "edge-1".toList :=
    ⟨List.all_eq_true.1 rfl, ⟨'e', rfl, rfl⟩, ⟨'1', rfl, rfl⟩⟩
  have hdigits : IsIdentifier "007".toList :=
    ⟨List.all_eq_true.1 rfl, ⟨'0', rfl, rfl⟩, ⟨'7', rfl, rfl⟩⟩
  have htext : ∀ v, ¬ TypedWord "edge-1".toList v := fun v =>
    not_typedWord_of_not_isDigits (by decide) (by decide) (by decide) (by decide)
  have htyped : TypedWord "007".toList (.natural 7) := .natural (by decide) (by decide)
  exact ⟨(load_clusterName hload hedge).1.2 htext, (load_clusterName hload hdigits).2 _ htyped⟩

/-- A name of digits is refused, though a file may give it. -/
theorem load_clusterName_digits :
    IsIdentifier "42".toList ∧
      load (some "cluster_name = \"42\"") [] = .ok ⟨"42", .empty⟩ ∧
      load (some "cluster_name = \"42\"") [⟨clusterNameVariable, "42"⟩] =
        .error (.rejected (.mismatch (.natural 42) .text) ["cluster_name"]) := by
  have hfile : load (some "cluster_name = \"42\"") [] = .ok ⟨"42", .empty⟩ :=
    eq_ok_of_toOption (by decide +kernel)
  have hdigits : IsDigits "42".toList := by decide
  have hname : IsIdentifier "42".toList :=
    ⟨List.all_eq_true.1 rfl, ⟨'4', rfl, rfl⟩, ⟨'2', rfl, rfl⟩⟩
  have htyped : TypedWord "42".toList (.natural 42) := .natural hdigits (by decide)
  obtain ⟨t, ht, -⟩ := exists_tableOfFile hfile
  refine ⟨hname, hfile, ?_⟩
  rw [load_clusterNameVariable ht (ofText_of_typedWord hname htyped) htyped.ne_table,
    providerOfTable_insert_of_typedWord t htyped]
  rfl

end LabelQuery.Settings
