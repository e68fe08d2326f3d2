import LabelQuery.Proofs.Number.Reading
import LabelQuery.Proofs.Query.Condition
import LabelQuery.Proofs.Query.NormalForm

/-!
# Query — rendering cannot fail

Whoever renders a requirement takes for granted that its values fit its operator: that a comparison
has a value and a set is not empty. Here the renderers are written once more for parts of which
nothing is known, with each of these assumptions as a check. The parts of a requirement pass all
checks, and rendering them gives what rendering the requirement gives.

* `Draft.text?`, `Clause.ofDraft?` — the renderers with their checks.
* `Clause.Fits` — the condition that belongs to a requirement, operator by operator.
* `Clause.ofRequirement_not_endsEmpty` — it does not end with a set of no values, whatever the key and
  the values are.
* `rendering_safe` — the same for all conditions of an assembled query.
-/

namespace LabelQuery

open Text

/-- The parts of a requirement, without what is known of them. -/
def Requirement.draft (r : Requirement) : Draft :=
  ⟨r.key, r.operator, r.values⟩

/-! ## The text of a requirement -/

namespace Draft

/-- The text of a requirement of which nothing is known. There is none if a comparison has no value
to write. -/
def text? (d : Draft) : Option String :=
  match d.operator with
  | .present => some d.key
  | .absent => some ("!" ++ d.key)
  | .greaterThan => d.values[0]?.map fun v => d.key ++ ">" ++ v
  | .lessThan => d.values[0]?.map fun v => d.key ++ "<" ++ v
  | .equals | .doubleEquals | .notEquals =>
    d.values[0]?.map fun v => d.key ++ d.operator.spelling ++ v
  | .oneOf | .noneOf =>
    some (d.key ++ " " ++ d.operator.spelling ++ " (" ++ ",".intercalate d.values ++ ")")

variable {d : Draft}

/-- The text of a comparison takes the first value, and there is none without it. -/
theorem text?_of_exactlyOne (h : d.operator.arity = .exactlyOne) :
    d.text? = d.values[0]?.map fun v => d.key ++ Requirement.sign d.operator ++ v := by
  obtain ⟨key, operator, values⟩ := d
  cases operator <;> first | rfl | cases h

theorem text?_of_atLeastOne (h : d.operator.arity = .atLeastOne) :
    d.text? =
      some (d.key ++ " " ++ d.operator.spelling ++ " (" ++ ",".intercalate d.values ++ ")") := by
  obtain ⟨key, operator, values⟩ := d
  cases operator <;> first | rfl | cases h

theorem text?_of_no (h : d.operator.arity = .no) :
    d.text? = some (if d.operator = .absent then "!" ++ d.key else d.key) := by
  obtain ⟨key, operator, values⟩ := d
  cases operator <;> first | rfl | cases h

end Draft

/-- Where the text of a requirement takes the first value, there is one. One case for each arity; a
comparison has exactly one value, by what the requirement carries. -/
theorem Requirement.text?_draft (r : Requirement) : r.draft.text? = some r.text := by
  cases harity : r.operator.arity with
  | exactlyOne =>
    -- the value that the text takes is the one that the requirement has
    have hvalues : r.draft.values = [r.value harity] := values_eq harity
    rw [Draft.text?_of_exactlyOne harity, hvalues, text_of_exactlyOne harity]
    rfl
  | atLeastOne =>
    rw [Draft.text?_of_atLeastOne harity, text_of_atLeastOne harity]
    rfl
  | no =>
    rw [Draft.text?_of_no harity, text_of_no harity]
    rfl

/-! ## The condition for a requirement -/

namespace Operator

theorem mem_comparisons_iff {operator : Operator} :
    operator ∈ [.equals, .doubleEquals, .notEquals, .greaterThan, .lessThan] ↔
      operator.arity = .exactlyOne := by
  cases operator <;> decide

theorem mem_sets_iff {operator : Operator} :
    operator ∈ [.oneOf, .noneOf] ↔ operator.arity = .atLeastOne := by
  cases operator <;> decide

theorem mem_presences_iff {operator : Operator} :
    operator ∈ [.present, .absent] ↔ operator.arity = .no := by
  cases operator <;> decide

end Operator

namespace Clause

/-- A comparison, for an operator that takes one value. -/
def compare? (key : String) (operator : Operator) (v : String) : Option Clause :=
  if operator.arity = .exactlyOne then some (compare key operator (Literal.classify v)) else none

/-- A set test, for an operator that takes some values, and at least one value. -/
def set? (key : String) (operator : Operator) (values : List String) : Option Clause :=
  if operator.arity = .atLeastOne ∧ values ≠ [] then
    some (set key operator (values.map Literal.classify))
  else none

/-- A presence test, for an operator that takes no value. -/
def presence? (key : String) (operator : Operator) : Option Clause :=
  if operator.arity = .no then some (presence key operator) else none

/-- The condition for a requirement of which nothing is known. A comparison without values takes the
fallback. -/
def ofDraft? (fallback : String) (d : Draft) : Option Clause :=
  match d.operator with
  | .equals | .doubleEquals | .notEquals | .greaterThan | .lessThan =>
    compare? d.key d.operator (d.values.head?.getD fallback)
  | .oneOf | .noneOf => set? d.key d.operator d.values
  | .present | .absent => presence? d.key d.operator

section

variable {d : Draft} (fallback : String)

/-- A comparison passes its check, with the first value or the fallback. -/
theorem ofDraft?_of_exactlyOne (h : d.operator.arity = .exactlyOne) : ofDraft? fallback d =
    some (compare d.key d.operator (Literal.classify (d.values.head?.getD fallback))) := by
  obtain ⟨key, operator, values⟩ := d
  cases operator <;> first | rfl | cases h

theorem ofDraft?_of_atLeastOne (h : d.operator.arity = .atLeastOne) (hne : d.values ≠ []) :
    ofDraft? fallback d = some (set d.key d.operator (d.values.map Literal.classify)) := by
  have hset : ofDraft? fallback d = set? d.key d.operator d.values := by
    obtain ⟨key, operator, values⟩ := d
    cases operator <;> first | rfl | cases h
  rw [hset, set?, if_pos ⟨h, hne⟩]

theorem ofDraft?_of_no (h : d.operator.arity = .no) :
    ofDraft? fallback d = some (presence d.key d.operator) := by
  obtain ⟨key, operator, values⟩ := d
  cases operator <;> first | rfl | cases h

end

/-- The parts of a requirement pass the checks, and the fallback is not taken. One case for each
arity, with what the requirement carries of the number of its values. -/
theorem ofDraft?_draft (fallback : String) (r : Requirement) :
    ofDraft? fallback r.draft = some (ofRequirement r) := by
  cases harity : r.operator.arity with
  | exactlyOne =>
    have hvalues : r.draft.values = [r.value harity] := Requirement.values_eq harity
    rw [ofDraft?_of_exactlyOne fallback harity, hvalues, ofRequirement_of_exactlyOne harity]
    rfl
  | atLeastOne =>
    -- a set test carries that it has a value
    have hne : r.draft.values ≠ [] := Requirement.values_ne_of_atLeastOne harity
    rw [ofDraft?_of_atLeastOne fallback harity hne, ofRequirement_of_atLeastOne harity]
    rfl
  | no =>
    rw [ofDraft?_of_no fallback harity, ofRequirement_of_no harity]
    rfl

/-- The condition that belongs to a requirement. -/
inductive Fits (r : Requirement) : Clause → Prop where
  | compare {v : String}
      (hop : r.operator ∈ [.equals, .doubleEquals, .notEquals, .greaterThan, .lessThan])
      (hvalues : r.values = [v]) : Fits r (.compare r.key r.operator (.classify v))
  | set (hop : r.operator ∈ [.oneOf, .noneOf]) (hne : r.values ≠ []) (hnodup : r.values.Nodup) :
      Fits r (.set r.key r.operator (r.values.map .classify))
  | presence (hop : r.operator ∈ [.present, .absent]) : Fits r (.presence r.key r.operator)

/-- The condition that is made for a requirement belongs to it. -/
theorem fits_ofRequirement (r : Requirement) : Fits r (ofRequirement r) := by
  cases harity : r.operator.arity with
  | exactlyOne =>
    rw [ofRequirement_of_exactlyOne harity]
    exact .compare (Operator.mem_comparisons_iff.2 harity) (Requirement.values_eq harity)
  | atLeastOne =>
    rw [ofRequirement_of_atLeastOne harity]
    have hne := Requirement.values_ne_of_atLeastOne harity
    exact .set (Operator.mem_sets_iff.2 harity) hne r.nodup
  | no =>
    rw [ofRequirement_of_no harity]
    exact .presence (Operator.mem_presences_iff.2 harity)

/-- A requirement has one condition: whichever belongs to it is the one that is made. -/
theorem Fits.eq {r : Requirement} {c : Clause} (h : Fits r c) : ofRequirement r = c := by
  cases h with
  | compare hop hvalues =>
    have harity := Operator.mem_comparisons_iff.1 hop
    -- the one value is the one that the condition was made of
    have hvalue := (Requirement.values_eq harity).symm.trans hvalues
    rw [ofRequirement_of_exactlyOne harity, List.singleton_inj.1 hvalue]
  | set hop _ _ => exact ofRequirement_of_atLeastOne (Operator.mem_sets_iff.1 hop)
  | presence hop => exact ofRequirement_of_no (Operator.mem_presences_iff.1 hop)

/-- The condition for a requirement is the one that belongs to it, and no other. -/
theorem ofRequirement_eq_iff {r : Requirement} {c : Clause} : ofRequirement r = c ↔ Fits r c := by
  constructor
  · rintro rfl
    exact fits_ofRequirement r
  · exact Fits.eq

end Clause

/-! ## No empty parentheses -/

/-- A text ends with a character that is no parenthesis. -/
def EndsPlain (cs : List Char) : Prop :=
  ∃ c ∈ cs.getLast?, c ≠ '(' ∧ c ≠ ')'

theorem endsPlain_concat {c : Char} (h : c ≠ '(' ∧ c ≠ ')') (cs : List Char) :
    EndsPlain (cs ++ [c]) :=
  ⟨c, List.getLast?_concat, h⟩

namespace EndsPlain

variable {cs : List Char} (h : EndsPlain cs)
include h

/-- More text in front does not change how a text ends. -/
theorem append (s : List Char) : EndsPlain (s ++ cs) := by
  obtain ⟨c, hc, hplain⟩ := h
  refine ⟨c, ?_, hplain⟩
  rw [List.getLast?_append, Option.mem_def.1 hc]
  rfl

/-- It does not end with an opening parenthesis. -/
theorem ne_open (s : List Char) : cs ≠ s ++ ['('] := by
  rintro rfl
  obtain ⟨c, hc, hopen, -⟩ := h
  rw [List.getLast?_concat] at hc
  exact hopen (Option.some.inj hc).symm

/-- It does not end with both parentheses, by its last character. -/
theorem ne_parentheses (s : List Char) : cs ≠ s ++ ['(', ')'] := by
  rintro rfl
  obtain ⟨c, hc, -, hclose⟩ := h
  rw [List.getLast?_append] at hc
  exact hclose (Option.some.inj hc).symm

end EndsPlain

namespace Literal

/-- A literal ends with the last character of a numeral or with a quote. -/
theorem endsPlain_written (v : String) : EndsPlain (written v) := by
  by_cases hnum : Number.isNumeric v.toList
  · rw [written_of_isNumeric hnum]
    have hne := Number.ne_nil_of_isNumeric hnum
    -- no parenthesis stands in a numeral
    have hlast := Number.isNumeralChar_of_isNumeric hnum _ (List.getLast_mem hne)
    refine ⟨_, List.getLast?_eq_some_getLast hne, ?_, ?_⟩
    · intro hopen
      rw [hopen] at hlast
      exact absurd hlast (by decide)
    · intro hclose
      rw [hclose] at hlast
      exact absurd hlast (by decide)
  · rw [written_of_not_isNumeric hnum]
    exact endsPlain_concat (by decide) ('\'' :: v.toList)

/-- Values with commas between them end as the last one does. Induction on the values after the
first. -/
theorem endsPlain_listed {values : List String} (hne : values ≠ []) :
    EndsPlain (listed values) := by
  cases values with
  | nil => exact absurd rfl hne
  | cons v values =>
    rw [listed_cons]
    induction values generalizing v with
    | nil =>
      rw [chain_nil, List.append_nil]
      exact endsPlain_written v
    | cons w values ih =>
      rw [chain_cons, List.append_assoc]
      exact ((ih w (List.cons_ne_nil w values)).append _).append _

end Literal

namespace Clause

/-- The condition ends with a set of no values. -/
def EndsEmpty (c : Clause) : Prop :=
  ∃ s, c.nrql = s ++ " IN ()"

/-- A set of no values would leave the two parentheses at the end of the condition. -/
theorem EndsEmpty.parentheses {c : Clause} (h : c.EndsEmpty) :
    ∃ s, c.nrql.toList = s ++ ['(', ')'] := by
  obtain ⟨s, hs⟩ := h
  refine ⟨(s ++ " IN ").toList, ?_⟩
  rw [hs]
  simp

/-- Up to its closing parenthesis a condition ends with a literal, or with the operator if there are
no values. -/
theorem endsPlain_body (r : Requirement) :
    EndsPlain (r.operator.opening.toList ++ Literal.listed r.values) := by
  by_cases hnil : r.values = []
  · rw [hnil, Literal.listed_nil, List.append_nil]
    -- no values, so the operator is one of two, and both end with a letter
    rcases Operator.present_or_absent_of_no (r.values_eq_nil_iff.1 hnil) with hpresent | habsent
    · rw [hpresent]
      exact endsPlain_concat (by decide) "IS NOT NUL".toList
    · rw [habsent]
      exact endsPlain_concat (by decide) "IS NUL".toList
  · exact (Literal.endsPlain_listed hnil).append _

/-- The condition for a requirement does not end with a set of no values, whatever the key and the
values hold. Its last character decides, or the one before its closing parenthesis. -/
theorem ofRequirement_not_endsEmpty (r : Requirement) : ¬ (ofRequirement r).EndsEmpty := by
  intro hempty
  obtain ⟨s, hs⟩ := hempty.parentheses
  -- the key and the blank after it stand before what ends plain
  have hplain := (endsPlain_body r).append (r.key.toList ++ [' '])
  have hnrql : r.key.toList ++ [' '] ++ (r.operator.opening.toList ++ Literal.listed r.values) ++
      r.operator.closing.toList = s ++ ['(', ')'] := by
    rw [← hs, nrql_ofRequirement]
    simp
  rcases r.operator.closing_cases with hclose | hclose
  · -- without its last parenthesis the condition would end with the opening one
    rw [hclose] at hnrql
    have hopen : _ ++ [')'] = s ++ ['('] ++ [')'] := hnrql.trans (List.append_cons s '(' [')'])
    exact hplain.ne_open s (List.append_cancel_right hopen)
  · rw [hclose] at hnrql
    -- without a closing parenthesis of its own the condition ends plain
    exact hplain.ne_parentheses s ((List.append_nil _).symm.trans hnrql)

/-- Nor does the condition for a cluster, which ends with a quote. -/
theorem cluster_not_endsEmpty (name : String) : ¬ (cluster name).EndsEmpty := by
  intro hempty
  obtain ⟨s, hs⟩ := hempty.parentheses
  have hnrql : (cluster name).nrql.toList = "clusterName='".toList ++ name.toList ++ ['\''] := by
    simp [nrql, Literal.nrql, clusterAttribute]
  exact (endsPlain_concat (by decide) _).ne_parentheses s (hnrql.symm.trans hs)

end Clause

/-! ## Queries -/

/-- **Where the conditions of a query come from**, if only limits, clusters and selectors are
added. -/
theorem Query.clauses_run {base : String} {steps : List Step} (h : ∀ c, .clause c ∉ steps)
    {c : Clause} (hc : c ∈ ((ofBase base).run steps).clauses) :
    (∃ name, .cluster name true ∈ steps ∧ c = .cluster name) ∨
      ∃ s, .matching (some s) ∈ steps ∧ ∃ r ∈ s.requirements, Clause.ofRequirement r = c := by
  rw [run_eq] at hc
  obtain ⟨step, hstep, hc⟩ := List.mem_flatMap.1 hc
  -- each step adds the conditions that it asks for
  cases step with
  | limit => cases hc
  | cluster name enabled =>
    cases enabled with
    | false => cases hc
    | true => exact .inl ⟨name, hstep, List.mem_singleton.1 hc⟩
  | matching selector =>
    cases selector with
    | none => cases hc
    | some s => exact .inr ⟨s, hstep, List.mem_map.1 hc⟩
  | clause c' => exact absurd hstep (h c')

/-- **Rendering cannot fail.** For every requirement, the text takes a value only where there is one,
the condition passes all checks and does not need the fallback, and it is the one that belongs to
the operator. A requirement is built from its own parts (`Requirement.build_self`), so these are all
that can be built or parsed. In a query of any base and any steps that add limits, clusters and
selectors, then, each condition names a cluster or belongs to a requirement of a selector that was
added, and none ends with ` IN ()`. -/
theorem rendering_safe :
    (∀ r : Requirement, r.draft.text? = some r.text ∧
      (∀ fallback, Clause.ofDraft? fallback r.draft = some (Clause.ofRequirement r)) ∧
      ∀ c, Clause.ofRequirement r = c ↔ Clause.Fits r c) ∧
    ∀ base steps, (∀ c, .clause c ∉ steps) →
      ∀ c ∈ ((Query.ofBase base).run steps).clauses,
        ((∃ name, .cluster name true ∈ steps ∧ c = .cluster name) ∨
          ∃ s, .matching (some s) ∈ steps ∧ ∃ r ∈ s.requirements, Clause.Fits r c) ∧
        ∀ s, c.nrql ≠ s ++ " IN ()" := by
  constructor
  · intro r
    exact ⟨r.text?_draft, fun fallback => Clause.ofDraft?_draft fallback r,
      fun c => Clause.ofRequirement_eq_iff⟩
  · intro base steps hsteps c hc
    rcases Query.clauses_run hsteps hc with ⟨name, hname, rfl⟩ | ⟨s, hs, r, hr, rfl⟩
    · exact ⟨.inl ⟨name, hname, rfl⟩, not_exists.1 (Clause.cluster_not_endsEmpty name)⟩
    · -- the condition was made for a requirement of a selector that was added
      have hempty := Clause.ofRequirement_not_endsEmpty r
      exact ⟨.inr ⟨s, hs, r, hr, Clause.fits_ofRequirement r⟩, not_exists.1 hempty⟩

/-- Of a set without values there is no condition, but there is one of the set with one empty value,
which is what empty parentheses in a selector stand for. -/
example : Clause.ofDraft? "" ⟨"tier", .oneOf, []⟩ = none ∧
    (Clause.ofDraft? "" ⟨"tier", .oneOf, [""]⟩).map Clause.nrql = some "tier IN ('')" := by
  decide

end LabelQuery
