import LabelQuery.Proofs.Settings.Override
import Mathlib.Data.List.Pairwise

/-!
# Settings — the order of variables

The variables of an environment are laid over one another in order, so that of two variables for one
setting the later one counts. Where no path of a variable is the path of another, or leads on from
it, the order does not matter: two such paths go through the same keys up to a table in which they
take different ones, and a table does not tell in what order its entries were put in. The values at
the ends of the paths are never laid over one another, so that they may be tables themselves.

* `Apart`, `Environment.Independent` — neither path leads on from the other; so with all variables.
* `Value.placeAt_comm` — values at the ends of two such paths.
* `overlay_tableOfVariable_comm` — two variables, one step of the fold after the other.
* `tableOfEnvironment_perm` — a whole environment.
* `path?_eq_none_iff`, `tableOfEnvironment_settings` — variables that hold no setting count for
  nothing.
* `load_reordered` — what is loaded, provider or error.
-/

namespace LabelQuery.Settings

open Text

/-! ## Paths apart -/

/-- Neither path leads on from the other. -/
def Apart (p q : List String) : Prop :=
  ¬ p <+: q ∧ ¬ q <+: p

theorem Apart.symm {p q : List String} (h : Apart p q) : Apart q p :=
  ⟨h.2, h.1⟩

/-- The empty path leads on to every other one, so it is apart from none. -/
theorem Apart.ne_nil {p q : List String} (h : Apart p q) : p ≠ [] := by
  rintro rfl
  exact h.1 List.nil_prefix

theorem Apart.tail {key : String} {p q : List String} (h : Apart (key :: p) (key :: q)) :
    Apart p q where
  left := fun hprefix => h.1 (List.cons_prefix_cons.2 ⟨rfl, hprefix⟩)
  right := fun hprefix => h.2 (List.cons_prefix_cons.2 ⟨rfl, hprefix⟩)

/-! ## Values at the ends of paths

A value is laid over what stands at a place already, if anything does. Whatever that is, there is a
table at the place when the path has a key to go. -/

/-- What stands at a place once a value is laid over it at the end of a path. -/
def Value.placeAt (old : Option Value) (path : List String) (v : Value) : Value :=
  old.elim (v.nest path) (·.overlay (v.nest path))

/-- The entries that stay when a table is laid over a place: only a table has any. -/
def Value.entriesOf (old : Option Value) : Table :=
  (old.bind Value.fields?).getD []

theorem Value.entriesOf_table (entries : Table) : entriesOf (some (.table entries)) = entries := rfl

/-- A value at the end of a path with a key to go makes a table of the place: the entries that were
there, and the value at its place under the key. -/
theorem Value.placeAt_cons (old : Option Value) (key : String) (path : List String) (v : Value) :
    placeAt old (key :: path) v =
      .table ((entriesOf old).insert key (placeAt ((entriesOf old).find? key) path v)) := by
  cases old with
  | none => rfl
  | some old =>
    cases old with
    | table entries => exact Value.overlay_nest_cons entries v key path
    | _ => rfl

/-- **Values at the ends of paths apart are laid over a place in either order.** Induction on the
paths: as long as their keys are the same, both go on into the same table; then each sets an entry
of its own. -/
theorem Value.placeAt_comm {p q : List String} (h : Apart p q) (old : Option Value) (a b : Value) :
    placeAt (some (placeAt old p a)) q b = placeAt (some (placeAt old q b)) p a := by
  induction p generalizing q old with
  | nil => exact absurd rfl h.ne_nil
  | cons key p ih =>
    cases q with
    | nil => exact absurd rfl h.symm.ne_nil
    | cons key' q =>
      simp only [placeAt_cons, entriesOf_table]
      by_cases hkey : key = key'
      · -- the second path finds what the first one has put under their key, and goes on from there
        subst hkey
        simp only [Entries.find?_insert_self, Entries.insert_insert, ih h.tail]
      · -- under its own key each path finds what it would have found without the other one
        rw [Entries.find?_insert_of_ne (Ne.symm hkey), Entries.find?_insert_of_ne hkey,
          Entries.insert_comm hkey]

/-- A table with a path laid over it is the place at which the path starts. This brings the laws of
places to tables. -/
theorem Table.overlay_tableAt {path : List String} (hne : path ≠ []) (t : Table) (v : Value) :
    .table (Table.overlay t (tableAt v path)) = Value.placeAt (some (.table t)) path v := by
  cases path with
  | nil => exact absurd rfl hne
  | cons key path => exact (Value.overlay_table t (tableAt v (key :: path))).symm

/-- Paths apart are laid over a table in either order. -/
theorem Table.overlay_tableAt_comm {p q : List String} (h : Apart p q) (t : Table) (a b : Value) :
    Table.overlay (Table.overlay t (tableAt a p)) (tableAt b q) =
      Table.overlay (Table.overlay t (tableAt b q)) (tableAt a p) := by
  apply Value.table.inj
  rw [overlay_tableAt h.symm.ne_nil, overlay_tableAt h.ne_nil, overlay_tableAt h.ne_nil,
    overlay_tableAt h.symm.ne_nil, Value.placeAt_comm h]

/-! ## Variables -/

/-- The settings that two variables hold, if both hold one, are at the ends of paths apart. -/
def Variable.Apart (v w : Variable) : Prop :=
  ∀ p ∈ path? v.name, ∀ q ∈ path? w.name, Settings.Apart p q

instance : Std.Symm Variable.Apart where
  symm _ _ h q hq p hp := (h p hp q hq).symm

/-- The path of no variable is that of another one, or leads on from it. -/
def Environment.Independent (env : Environment) : Prop :=
  env.Pairwise Variable.Apart

/-- A variable that holds no setting leaves the table below it as it is. -/
theorem overlay_tableOfVariable_of_none {v : Variable} (h : path? v.name = none) (t : Table) :
    Table.overlay t (tableOfVariable v) = t := by
  unfold tableOfVariable
  rw [h]
  rfl

/-- Two variables apart are laid over a table in either order, and one that holds no setting changes
nothing in any order. -/
theorem overlay_tableOfVariable_comm {v w : Variable} (h : v.Apart w) (t : Table) :
    Table.overlay (Table.overlay t (tableOfVariable v)) (tableOfVariable w) =
      Table.overlay (Table.overlay t (tableOfVariable w)) (tableOfVariable v) := by
  cases hv : path? v.name with
  | none => rw [overlay_tableOfVariable_of_none hv, overlay_tableOfVariable_of_none hv]
  | some p =>
    cases hw : path? w.name with
    | none => rw [overlay_tableOfVariable_of_none hw, overlay_tableOfVariable_of_none hw]
    | some q =>
      -- both hold a setting, and their paths are apart
      rw [tableOfVariable_of_some hv, tableOfVariable_of_some hw]
      exact Table.overlay_tableAt_comm (h p hv q hw) t _ _

/-- **The order of independent variables does not matter** to the settings that they hold. The fold
over the environment needs that any two of its variables may change places; two different ones are
independent, in whichever order they stand. -/
theorem tableOfEnvironment_perm {env env' : Environment} (h : env.Independent)
    (hperm : env.Perm env') : tableOfEnvironment env = tableOfEnvironment env' := by
  refine hperm.foldl_eq' (fun v hv w hw t => ?_) []
  -- nothing is said of a variable and itself, which cannot come in another order
  by_cases heq : v = w
  · rw [heq]
  · exact overlay_tableOfVariable_comm (h.forall hv hw heq) t

/-! ## Variables that hold no setting -/

/-- The name of a variable that holds no setting: it does not start with the prefix of settings, in
any case, or a part between the separators after the prefix is empty. White space at its ends counts
for nothing. -/
inductive HoldsNone (name : String) : Prop where
  | foreign (h : ∀ start rest, trim name.toList = start ++ rest →
      start.map Char.toLower ≠ variablePrefix)
  | emptyPart {start rest : List Char} (happend : trim name.toList = start ++ rest)
      (hstart : start.map Char.toLower = variablePrefix)
      (hpart : [] ∈ splitAt '.' (trim (dotted rest)))

/-- The name of a variable leads through no keys exactly if the prefix is missing or a part after it
is empty. -/
theorem path?_eq_none_iff {name : String} : path? name = none ↔ HoldsNone name := by
  unfold path?
  cases hafter : afterWord? variablePrefix (trim name.toList) with
  | none =>
    -- without the prefix the variable is not looked at any further
    refine iff_of_true rfl (.foreign fun start rest happend hstart => ?_)
    rw [afterWord?_eq_some_iff.2 ⟨start, hstart, happend⟩] at hafter
    cases hafter
  | some rest =>
    obtain ⟨start, hstart, happend⟩ := afterWord?_eq_some_iff.1 hafter
    simp only [bind, Option.bind]
    constructor
    · intro h
      split at h
      · next hpart => exact .emptyPart happend hstart hpart
      · cases h
    · rintro (hforeign | ⟨happend', hstart', hpart⟩)
      · exact absurd hstart (hforeign start rest happend)
      · -- what comes after the prefix is the same text
        rw [afterWord?_eq_some_iff.2 ⟨_, hstart', happend'⟩] at hafter
        cases hafter
        exact if_pos hpart

/-- The variables of an environment that hold a setting. -/
def Environment.settings (env : Environment) : Environment :=
  env.filter fun v => (path? v.name).isSome

/-- Variables that hold no setting count for nothing, wherever they stand. -/
theorem tableOfEnvironment_settings (env : Environment) :
    tableOfEnvironment env.settings = tableOfEnvironment env := by
  unfold tableOfEnvironment Environment.settings
  rw [List.foldl_filter]
  congr 1
  funext t v
  split
  · rfl
  · next hnone =>
    exact (overlay_tableOfVariable_of_none (Option.not_isSome_iff_eq_none.1 hnone) t).symm

theorem Environment.settings_append_others (env : Environment) {others : Environment}
    (hothers : ∀ v ∈ others, HoldsNone v.name) :
    Environment.settings (env ++ others) = env.settings := by
  have hnone : others.settings = [] := by
    refine List.filter_eq_nil_iff.2 fun v hv => ?_
    rw [Option.not_isSome_iff_eq_none, path?_eq_none_iff]
    exact hothers v hv
  calc Environment.settings (env ++ others)
      = env.settings ++ others.settings := List.filter_append _ _
    _ = env.settings := by rw [hnone, List.append_nil]

/-! ## Loading -/

theorem load_congr {env env' : Environment} (h : tableOfEnvironment env = tableOfEnvironment env')
    (file : Option String) : load file env = load file env' := by
  unfold load
  rw [h]

/-- **What is loaded does not depend on the order of independent variables**, nor on variables that
hold no setting, wherever these stand among them. The provider is the same, or else the error. -/
theorem load_reordered (file : Option String) {env env' others : Environment}
    (hindependent : env.Independent) (hothers : ∀ v ∈ others, HoldsNone v.name)
    (hperm : env'.Perm (env ++ others)) : load file env' = load file env := by
  have hindependent' : env.settings.Independent := hindependent.filter _
  -- the settings of the one environment are those of the other in another order
  have hsettings : env.settings.Perm (Environment.settings env') := by
    rw [← env.settings_append_others hothers]
    exact (hperm.filter _).symm
  refine load_congr ?_ file
  calc tableOfEnvironment env'
      = tableOfEnvironment (Environment.settings env') := (tableOfEnvironment_settings env').symm
    _ = tableOfEnvironment env.settings := (tableOfEnvironment_perm hindependent' hsettings).symm
    _ = tableOfEnvironment env := tableOfEnvironment_settings env

/-- A table and a setting of another metric, among variables that hold no setting: the name of one of
these does not start with the prefix, and four underscores leave a part of the other one empty. -/
theorem load_reordered_among_others :
    load (some "external_metrics.cpu.query = 'q'")
      [⟨"HOME", "/"⟩, ⟨"nrql__external_metrics__cpu__add_cluster_filter", "true"⟩,
        ⟨"NRQL__EXTERNAL_METRICS____CPU", "x"⟩, ⟨"NRQL__EXTERNAL_METRICS__MEM", "{query = m}"⟩] =
      .ok ⟨"", (KeyMap.empty.insert "cpu" ⟨"q", true⟩).insert "mem" ⟨"m", false⟩⟩ := by
  let mem : Variable := ⟨"NRQL__EXTERNAL_METRICS__MEM", "{query = m}"⟩
  let cpu : Variable := ⟨"nrql__external_metrics__cpu__add_cluster_filter", "true"⟩
  have hload : load (some "external_metrics.cpu.query = 'q'") [mem, cpu] =
      .ok ⟨"", (KeyMap.empty.insert "cpu" ⟨"q", true⟩).insert "mem" ⟨"m", false⟩⟩ :=
    eq_ok_of_toOption (by decide +kernel)
  have hmem : path? mem.name = some ["external_metrics", "mem"] := by decide +kernel
  have hcpu : path? cpu.name = some ["external_metrics", "cpu", "add_cluster_filter"] := by
    decide +kernel
  have hindependent : Environment.Independent [mem, cpu] := by
    refine List.pairwise_pair.2 fun p hp q hq => ?_
    rw [hmem] at hp
    rw [hcpu] at hq
    cases hp
    cases hq
    exact ⟨by decide, by decide⟩
  have hothers : ∀ v ∈ ([⟨"HOME", "/"⟩, ⟨"NRQL__EXTERNAL_METRICS____CPU", "x"⟩] : Environment),
      HoldsNone v.name :=
    List.forall_mem_cons.2 ⟨path?_eq_none_iff.1 (by decide +kernel),
      List.forall_mem_singleton.2 (path?_eq_none_iff.1 (by decide +kernel))⟩
  exact (load_reordered _ hindependent hothers (by decide +kernel)).trans hload

end LabelQuery.Settings
