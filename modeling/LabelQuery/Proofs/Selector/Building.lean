import LabelQuery.Proofs.Number.Parts
import LabelQuery.Selector.Basic
import Mathlib.Data.List.Basic
import Mathlib.Data.List.Induction

/-!
# Selector — what building a requirement answers

A requirement is built from any key, operator and values. Repeated values count once, and each keeps
the place at which it is given first; what is left decides. Of several faults the key is told before
the number of values, and that before a value that is no integer.

* `FirstOccurrences values us` — `us` is what is left of `values`.
* `Outcome` — the answer for a key, an operator and what is left, case by case.
* `WithRepeats` — values with some of them repeated after the place at which they are given first.
* `build_eq_ok_iff`, `build_eq_error_iff` — when a requirement is built, and when it is refused.
* `build_exact` — building answers the outcome, and repeats have no say in it.
-/

namespace LabelQuery.Requirement

/-! ## Values, each where it is given first -/

/-- The values of a list, each once, in the order in which they are given first. -/
structure FirstOccurrences (values us : List String) : Prop where
  mem_iff : ∀ v, v ∈ us ↔ v ∈ values
  ordered : us.Pairwise fun v w => values.idxOf v < values.idxOf w

/-- No value is left twice, since its place would have to be before itself. -/
theorem FirstOccurrences.nodup {values us : List String} (h : FirstOccurrences values us) :
    us.Nodup :=
  h.ordered.imp fun hlt heq => absurd hlt (by rw [heq]; exact Nat.lt_irrefl _)

/-- The members and their order leave no choice: two lists without repeats that have the same
members are permutations of each other, and a permutation that keeps the order changes nothing. -/
theorem FirstOccurrences.unique {values us us' : List String} (h : FirstOccurrences values us)
    (h' : FirstOccurrences values us') : us = us' := by
  have hperm : us.Perm us' :=
    (List.perm_ext_iff_of_nodup h.nodup h'.nodup).2 fun v => by rw [h.mem_iff, h'.mem_iff]
  -- two values in the one order and the other way round would each stand before the other
  refine hperm.eq_of_pairwise ?_ h.ordered h'.ordered
  intro v w _ _ hvw hwv
  omega

/-- Of values that are added to others, those that are not among the others are kept. -/
theorem distinct_append (values more : List String) :
    distinct (values ++ more) = distinct values ++ distinct (more.removeAll values) :=
  List.eraseDups_append

/-- A value that was given before is dropped, any other one is put at the end. This is the step of
the induction on values from their end. -/
theorem distinct_concat (values : List String) (v : String) :
    distinct (values ++ [v]) = if v ∈ values then distinct values else distinct values ++ [v] := by
  rw [distinct_append]
  by_cases h : v ∈ values
  · simp [h, List.removeAll, distinct]
  · simp [h, List.removeAll, distinct, List.eraseDups_cons]

/-- The values that are kept are the first occurrences. Induction on the values from their end, where
the one given last is either a repeat or comes after all others. -/
theorem firstOccurrences_distinct (values : List String) :
    FirstOccurrences values (distinct values) := by
  refine ⟨fun v => mem_distinct, ?_⟩
  induction values using List.reverseRecOn with
  | nil => simp [distinct]
  | append_singleton values v ih =>
    -- what was given before keeps its place
    have hold : (distinct values).Pairwise fun w w' =>
        (values ++ [v]).idxOf w < (values ++ [v]).idxOf w' := by
      refine ih.imp_of_mem fun hw hw' hlt => ?_
      rwa [List.idxOf_append_of_mem (mem_distinct.1 hw),
        List.idxOf_append_of_mem (mem_distinct.1 hw')]
    rw [distinct_concat]
    split
    · exact hold
    · next hnew =>
      -- a new value comes after the places of all the others
      refine List.pairwise_append.2 ⟨hold, List.pairwise_singleton _ _, fun w hw w' hw' => ?_⟩
      rw [List.mem_singleton.1 hw', List.idxOf_append_of_mem (mem_distinct.1 hw),
        List.idxOf_append_of_notMem hnew]
      have hplace := List.idxOf_lt_length_of_mem (mem_distinct.1 hw)
      omega

theorem firstOccurrences_iff {values us : List String} :
    FirstOccurrences values us ↔ us = distinct values :=
  ⟨fun h => h.unique (firstOccurrences_distinct values), fun h => h ▸ firstOccurrences_distinct values⟩

/-- Values with some of them repeated, each repeat after the place at which its value stands first. -/
inductive WithRepeats (values : List String) : List String → Prop where
  | none : WithRepeats values values
  | more {before after : List String} {v : String} (h : WithRepeats values (before ++ after))
      (hv : v ∈ before) : WithRepeats values (before ++ v :: after)

/-- A value that was given before can be left out, wherever the repeat stands. -/
theorem distinct_repeat {before : List String} {v : String} (hv : v ∈ before) (after : List String) :
    distinct (before ++ v :: after) = distinct (before ++ after) := by
  have hremoved : (v :: after).removeAll before = after.removeAll before := by
    simp [List.removeAll, hv]
  rw [distinct_append, distinct_append, hremoved]

/-- Repeats have no say in what is left. Induction on the repeats, taking out one at a time. -/
theorem WithRepeats.distinct_eq {values more : List String} (h : WithRepeats values more) :
    distinct more = distinct values := by
  induction h with
  | none => rfl
  | more _ hv ih => rw [distinct_repeat hv, ih]

/-! ## When a requirement is built -/

theorem eq_of_parts {r r' : Requirement} (hkey : r.key = r'.key)
    (hoperator : r.operator = r'.operator) (hvalues : r.values = r'.values) : r = r' := by
  cases r
  cases r'
  cases hkey
  cases hoperator
  cases hvalues
  rfl

/-- A comparison by `>` or `<` that has as many values as it takes has exactly one, and it is this
value that has to be an integer. -/
theorem eq_singleton_of_allows {operator : Operator} (hnum : operator.isNumeric) {us : List String}
    (hallows : operator.arity.Allows us.length) : ∃ v, us = [v] := by
  have harity : operator.arity = .exactlyOne := by
    cases operator with
    | greaterThan => rfl
    | lessThan => rfl
    | _ => cases hnum
  rw [harity] at hallows
  exact List.length_eq_one_iff.1 hallows

/-- The value at which the search for a fault stops. When the number of values is right it is the
only value there is, so which one is found first does not matter. -/
theorem find?_eq_some_iff {operator : Operator} {us : List String}
    (hallows : operator.arity.Allows us.length) {v : String} :
    us.find? (fun v => operator.isNumeric && !decide (IsInteger v)) = some v ↔
      operator.isNumeric ∧ us = [v] ∧ ¬ IsInteger v := by
  constructor
  · intro h
    -- the value found is a fault of a numeric operator, which takes one value
    have hbad := List.find?_some h
    rw [Bool.and_eq_true, Bool.not_eq_true', decide_eq_false_iff_not] at hbad
    obtain ⟨u, rfl⟩ := eq_singleton_of_allows hbad.1 hallows
    rw [List.mem_singleton.1 (List.mem_of_find?_eq_some h)] at hbad ⊢
    exact ⟨hbad.1, rfl, hbad.2⟩
  · rintro ⟨hnum, rfl, hv⟩
    exact List.find?_cons_of_pos (by simp [hnum, hv])

/-- The faults for which a requirement is refused, in the order in which they are looked for. The
cases exclude each other, so each tells its fault exactly. -/
theorem build_eq_error_iff {key : String} {operator : Operator} {values : List String}
    {e : SelectorError} : build key operator values = .error e ↔
      key = "" ∧ e = .emptyKey ∨
      key ≠ "" ∧ ¬ operator.arity.Allows (distinct values).length ∧
        e = .valueCount operator (distinct values).length ∨
      key ≠ "" ∧ operator.arity.Allows (distinct values).length ∧ ∃ v,
        (operator.isNumeric ∧ distinct values = [v] ∧ ¬ IsInteger v) ∧
          e = .notAnInteger operator v := by
  unfold build
  split
  · next hkey => simp [hkey, @eq_comm _ e]
  · next hkey =>
    split
    · next hallows =>
      -- with the right number of values the last fault is what the search finds
      simp only [← find?_eq_some_iff hallows]
      split
      · next hfind => simp [hkey, hallows, hfind, @eq_comm _ e]
      · next hfind => simp [hkey, hallows, hfind]
    · next hallows => simp [hkey, hallows, @eq_comm _ e]

/-- A requirement that is built has the key and the operator that were given, and what is left of
the values. -/
theorem parts_of_build {key : String} {operator : Operator} {values : List String}
    {r : Requirement} (h : build key operator values = .ok r) :
    r.key = key ∧ r.operator = operator ∧ r.values = distinct values := by
  unfold build at h
  split at h
  · cases h
  · split at h
    · split at h
      · cases h
      · cases h
        exact ⟨rfl, rfl, rfl⟩
    · cases h

/-- The faults for which a requirement is refused, apart from their order. This is the form to argue
against: if none of the three can be there, the requirement is built. -/
theorem build_error_cases {key : String} {operator : Operator} {values : List String}
    {e : SelectorError} (h : build key operator values = .error e) :
    key = "" ∨ ¬ operator.arity.Allows (distinct values).length ∨
      ∃ v ∈ values, e = .notAnInteger operator v ∧ operator.isNumeric ∧ ¬ IsInteger v := by
  rcases build_eq_error_iff.1 h with ⟨hkey, -⟩ | ⟨-, hallows, -⟩ | ⟨-, -, v, ⟨hnum, hus, hv⟩, he⟩
  · exact .inl hkey
  · exact .inr (.inl hallows)
  · refine .inr (.inr ⟨v, mem_distinct.1 ?_, he, hnum, hv⟩)
    rw [hus]
    exact List.mem_singleton_self v

/-- A requirement is built from its own key and operator and any values that are its own up to
repeats. -/
theorem build_eq_ok_iff {key : String} {operator : Operator} {values : List String}
    {r : Requirement} : build key operator values = .ok r ↔
      r.key = key ∧ r.operator = operator ∧ r.values = distinct values := by
  constructor
  · exact parts_of_build
  · rintro ⟨rfl, rfl, hvalues⟩
    cases hbuild : build r.key r.operator values with
    | ok r' =>
      obtain ⟨hkey, hoperator, hvalues'⟩ := parts_of_build hbuild
      rw [eq_of_parts hkey hoperator (hvalues'.trans hvalues.symm)]
    | error e =>
      -- each fault contradicts a field of the requirement
      exfalso
      rcases build_error_cases hbuild with hkey | hallows | ⟨v, hv, -, hnum, hinteger⟩
      · exact r.key_ne hkey
      · rw [← hvalues] at hallows
        exact hallows r.allows
      · refine hinteger (r.integers hnum v ?_)
        rw [hvalues]
        exact mem_distinct.2 hv

/-! ## The answer, case by case -/

/-- The numbers of values that an operator does not take. -/
def WrongCount (operator : Operator) (n : Nat) : Prop :=
  operator ∈ [.equals, .doubleEquals, .notEquals, .greaterThan, .lessThan] ∧ n ≠ 1 ∨
    operator ∈ [.oneOf, .noneOf] ∧ n = 0 ∨ operator ∈ [.present, .absent] ∧ n ≠ 0

/-- What building answers for a key, an operator and the values that are left. -/
inductive Outcome (key : String) (operator : Operator) (us : List String) :
    Except SelectorError Requirement → Prop where
  | emptyKey (hkey : key = "") : Outcome key operator us (.error .emptyKey)
  | valueCount (hkey : key ≠ "") (hcount : WrongCount operator us.length) :
      Outcome key operator us (.error (.valueCount operator us.length))
  | notAnInteger {v : String} (hkey : key ≠ "") (hcount : ¬ WrongCount operator us.length)
      (hoperator : operator ∈ [.greaterThan, .lessThan]) (hus : us = [v])
      (hv : ¬ Number.WrittenInt64 v.toList) :
      Outcome key operator us (.error (.notAnInteger operator v))
  | built {r : Requirement} (hkey : key ≠ "") (hcount : ¬ WrongCount operator us.length)
      (hintegers : operator ∈ [.greaterThan, .lessThan] → ∃ v, us = [v] ∧
        Number.WrittenInt64 v.toList)
      (hparts : r.key = key ∧ r.operator = operator ∧ r.values = us) :
      Outcome key operator us (.ok r)

/-- The numbers of values as a table by operator agree with the arity that building looks at. -/
theorem wrongCount_iff {operator : Operator} {n : Nat} :
    WrongCount operator n ↔ ¬ operator.arity.Allows n := by
  cases operator <;> simp [WrongCount, Operator.arity, Operator.Arity.Allows]

theorem isNumeric_iff_mem {operator : Operator} :
    operator.isNumeric ↔ operator ∈ [.greaterThan, .lessThan] := by
  cases operator <;> decide

/-- A value is an integer when it is written as one of 64 bits: a sign, if any, and digits, in
range. -/
theorem isInteger_iff_written {v : String} : IsInteger v ↔ Number.WrittenInt64 v.toList :=
  Number.int64?_isSome_iff

/-- Building answers the outcome for the values that are left. An error is one of three faults, each
of which is a case of its own; a requirement answers when none of them is there. -/
theorem build_eq_iff_outcome {key : String} {operator : Operator} {values : List String}
    {x : Except SelectorError Requirement} :
    build key operator values = x ↔ Outcome key operator (distinct values) x := by
  cases x with
  | error e =>
    rw [build_eq_error_iff]
    constructor
    · rintro (⟨hkey, rfl⟩ | ⟨hkey, hallows, rfl⟩ | ⟨hkey, hallows, v, ⟨hnum, hus, hv⟩, rfl⟩)
      · exact .emptyKey hkey
      · exact .valueCount hkey (wrongCount_iff.2 hallows)
      · exact .notAnInteger hkey (fun hcount => wrongCount_iff.1 hcount hallows)
          (isNumeric_iff_mem.1 hnum) hus (mt isInteger_iff_written.2 hv)
    · intro h
      cases h with
      | emptyKey hkey => exact .inl ⟨hkey, rfl⟩
      | valueCount hkey hcount => exact .inr (.inl ⟨hkey, wrongCount_iff.1 hcount, rfl⟩)
      | notAnInteger hkey hcount hoperator hus hv =>
        have hallows := Decidable.not_not.1 (mt wrongCount_iff.2 hcount)
        have hnum := isNumeric_iff_mem.2 hoperator
        exact .inr (.inr ⟨hkey, hallows, _, ⟨hnum, hus, mt isInteger_iff_written.1 hv⟩, rfl⟩)
  | ok r =>
    rw [build_eq_ok_iff]
    constructor
    · rintro ⟨rfl, rfl, hvalues⟩
      have hallows := r.allows
      rw [hvalues] at hallows
      -- the requirement itself carries the facts that no fault is there
      refine .built r.key_ne (fun hcount => wrongCount_iff.1 hcount hallows) ?_ ⟨rfl, rfl, hvalues⟩
      intro hoperator
      have hnum := isNumeric_iff_mem.2 hoperator
      obtain ⟨v, hv⟩ := eq_singleton_of_allows hnum hallows
      refine ⟨v, hv, isInteger_iff_written.1 (r.integers hnum v ?_)⟩
      rw [hvalues, hv]
      exact List.mem_singleton_self v
    · intro h
      cases h with
      | built _ _ _ hparts => exact hparts

/-- **Building answers what the key, the operator and the first occurrences of the values ask for.**
So a requirement is built again from its own parts, and repeats change nothing. -/
theorem build_exact (key : String) (operator : Operator) (values : List String) :
    (∃ us, FirstOccurrences values us ∧ (∀ us', FirstOccurrences values us' → us' = us) ∧
      ∀ x, build key operator values = x ↔ Outcome key operator us x) ∧
    (∀ r : Requirement, build r.key r.operator r.values = .ok r) ∧
    ∀ more, WithRepeats values more → build key operator more = build key operator values := by
  refine ⟨⟨distinct values, firstOccurrences_distinct values, ?_, ?_⟩, build_self, ?_⟩
  · intro us' h'
    exact firstOccurrences_iff.1 h'
  · intro x
    exact build_eq_iff_outcome
  · -- the outcome depends on the values only by what is left of them
    intro more hmore
    rw [build_eq_iff_outcome, hmore.distinct_eq]
    exact build_eq_iff_outcome.1 rfl

/-- A value that is given twice is one value, and the key is looked at before the values. -/
example : build "tier" .equals ["a", "a"] = equals "tier" "a" ∧
    build "" .lessThan ["a", "b"] = .error .emptyKey := by
  decide

end LabelQuery.Requirement
