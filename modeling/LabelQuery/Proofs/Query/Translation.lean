import LabelQuery.Proofs.Query.Condition
import LabelQuery.Provider.Basic

/-!
# Query — nothing of a selector is lost

The conditions of a query stand one after another with only the word `and` between them. Two
selectors that were parsed give the same query exactly if their requirements are the same ones in the
same order, with `=` for `==`.

* `Query.nrql_addSelector_inj` — lexical requirements can be read back from a query that they were
  added to, whatever the query held before.
* `Metric.build_nrql_eq_iff` — so the query of a metric tells any two parsed selectors apart.
-/

namespace LabelQuery

open Text

/-! ## Requirements without `==` -/

namespace Requirement

/-- A requirement of which a condition loses nothing: it is lexical, and its operator is not `==`. -/
def Readable (r : Requirement) : Prop :=
  r.Lexical ∧ r.plain = r

/-- With `=` for `==` every lexical requirement is readable: the change is made once, and it does
not touch the key or the values. -/
theorem Lexical.readable_plain {r : Requirement} (h : r.Lexical) : r.plain.Readable := by
  have hidem : r.plain.plain = r.plain :=
    plain_eq_iff.2 ⟨rfl, Operator.plain_plain r.operator, rfl⟩
  refine ⟨?_, hidem⟩
  unfold Lexical at h ⊢
  show _ ∧ ∀ v ∈ r.values, (if r.operator.plain.isNumeric then _ else _) = _
  rw [Operator.isNumeric_plain]
  exact h

end Requirement

/-! ## The conditions of a query -/

namespace Query

/-- The conditions of a query with the keyword before the first and `and` before the others. -/
def whereText : List Clause → List Char
  | [] => []
  | c :: cs => " where ".toList ++ c.nrql.toList ++ chain " and ".toList (fun d => d.nrql.toList) cs

theorem whereText_nil : whereText [] = [] := rfl

theorem whereText_cons (c : Clause) (cs : List Clause) : whereText (c :: cs) =
    " where ".toList ++ c.nrql.toList ++ chain " and ".toList (fun d => d.nrql.toList) cs := rfl

/-- The text of a query is its base, a limit if it is limited, and the text of its conditions. -/
theorem nrql_toList (q : Query) : q.nrql.toList =
    (q.base ++ if q.limited then " limit 1" else "").toList ++ whereText q.clauses := by
  cases hclauses : q.clauses with
  | nil => simp [nrql, whereClause?, whereText_nil, hclauses]
  | cons c cs =>
    unfold nrql whereClause?
    rw [hclauses, if_neg (List.cons_ne_nil c cs), whereText_cons]
    simp only [String.toList_append, toList_intercalate_cons]
    simp

/-- Only the texts of the conditions matter, not the conditions themselves. -/
theorem whereText_congr {cs ds : List Clause} (h : cs.map Clause.nrql = ds.map Clause.nrql) :
    whereText cs = whereText ds := by
  cases cs with
  | nil =>
    cases ds with
    | nil => rfl
    | cons d ds => cases h
  | cons c cs =>
    cases ds with
    | nil => cases h
    | cons d ds =>
      rw [List.map_cons, List.map_cons, List.cons.injEq] at h
      have hchain := congrArg (chain " and ".toList String.toList) h.2
      rw [chain_map, chain_map] at hchain
      rw [whereText_cons, whereText_cons, h.1, hchain]

/-- The condition for a requirement, as characters. -/
def conditionText (r : Requirement) : List Char :=
  (Clause.ofRequirement r).nrql.toList

/-- The condition for a readable requirement ends itself before a blank, so requirements can be read
off one after another. -/
theorem conditionText_selfEnding :
    SelfEnding (· != ' ') Requirement.Readable conditionText := by
  intro r q s t hr hq hs ht h
  obtain ⟨hplain, hrest⟩ := Clause.plain_eq_of_append hr.1 hq.1 hs ht h
  rw [hr.2, hq.2] at hplain
  exact ⟨hplain, hrest⟩

/-- The word between two conditions begins with a blank, which ends the condition before it. -/
theorem stops_and (s : List Char) : Stops (· != ' ') (" and ".toList ++ s) := by
  show Stops (· != ' ') (' ' :: _)
  rw [stops_cons]
  decide

/-- Conditions after `and` can be read back up to the end of the query, as a chain of texts each of
which ends itself. -/
theorem chain_conditionText_inj {rs qs : List Requirement} (hrs : ∀ r ∈ rs, r.Readable)
    (hqs : ∀ q ∈ qs, q.Readable)
    (h : chain " and ".toList conditionText rs = chain " and ".toList conditionText qs) :
    rs = qs := by
  -- nothing follows the last condition, so the chains end together
  have hend : ¬ " and ".toList <+: [] := by decide
  have happend : chain " and ".toList conditionText rs ++ []
      = chain " and ".toList conditionText qs ++ [] := by rw [h]
  exact (chain_append_inj conditionText_selfEnding stops_and hrs hqs (stops_nil _) (stops_nil _)
    hend hend happend).1

/-- The conditions of requirements can be read back after any conditions of a query. If there are
none before, the first one stands after the keyword, and the others are a chain as before. -/
theorem whereText_inj (front : List Clause) {rs qs : List Requirement}
    (hrs : ∀ r ∈ rs, r.Readable) (hqs : ∀ q ∈ qs, q.Readable)
    (h : whereText (front ++ rs.map Clause.ofRequirement)
      = whereText (front ++ qs.map Clause.ofRequirement)) : rs = qs := by
  cases front with
  | cons c cs =>
    -- after an earlier condition all new ones stand after `and`
    simp only [List.cons_append, whereText_cons, chain_append, chain_map, ← List.append_assoc] at h
    exact chain_conditionText_inj hrs hqs (List.append_cancel_left h)
  | nil =>
    cases rs with
    | nil =>
      cases qs with
      | nil => rfl
      | cons q qs => simp [whereText_nil, whereText_cons] at h
    | cons r rs =>
      cases qs with
      | nil => simp [whereText_nil, whereText_cons] at h
      | cons q qs =>
        -- with `and` in place of the keyword, both sides are chains
        simp only [List.nil_append, List.map_cons, whereText_cons, chain_map, List.append_assoc] at h
        apply chain_conditionText_inj hrs hqs
        rw [chain_cons, chain_cons, List.append_assoc, List.append_assoc]
        congr 1
        exact List.append_cancel_left h

/-! ## Adding a selector -/

theorem nrql_addSelector (q : Query) (s : Selector) : (q.addSelector (some s)).nrql.toList =
    (q.base ++ if q.limited then " limit 1" else "").toList
      ++ whereText (q.clauses ++ s.requirements.map Clause.ofRequirement) :=
  nrql_toList _

/-- A query tells the readable selectors apart that are added to it: the base, the limit and the
earlier conditions are the same on both sides and fall away. -/
theorem nrql_addSelector_inj (q : Query) {s₁ s₂ : Selector}
    (h₁ : ∀ r ∈ s₁.requirements, r.Readable) (h₂ : ∀ r ∈ s₂.requirements, r.Readable)
    (h : (q.addSelector (some s₁)).nrql = (q.addSelector (some s₂)).nrql) : s₁ = s₂ := by
  have htext := congrArg String.toList h
  rw [nrql_addSelector, nrql_addSelector] at htext
  -- both texts begin with the same base and the same limit
  have hrequirements : s₁.requirements = s₂.requirements :=
    whereText_inj q.clauses h₁ h₂ (List.append_cancel_left htext)
  obtain ⟨rs₁⟩ := s₁
  obtain ⟨rs₂⟩ := s₂
  exact congrArg Selector.mk hrequirements

end Query

/-! ## Parsed selectors -/

namespace Selector

/-- The selector with `=` for `==`. -/
def plain (s : Selector) : Selector :=
  ⟨s.requirements.map Requirement.plain⟩

/-- With `=` for `==` a parsed selector has readable requirements only, as everything that is parsed
is lexical. -/
theorem readable_plain {text : String} {s : Selector} (h : parse text = .ok s) :
    ∀ r ∈ s.plain.requirements, r.Readable := by
  have hlexical : ∀ r ∈ s.requirements, r.Lexical := (parse_ok_iff.1 h).lexical
  intro r hr
  obtain ⟨q, hq, rfl⟩ := List.mem_map.1 hr
  exact (hlexical q hq).readable_plain

end Selector

/-- A query does not tell a selector from the one with `=` for `==`, since the texts of the
conditions are the same. -/
theorem Query.nrql_addSelector_plain (q : Query) (s : Selector) :
    (q.addSelector (some s.plain)).nrql = (q.addSelector (some s)).nrql := by
  have hconditions : (s.plain.requirements.map Clause.ofRequirement).map Clause.nrql
      = (s.requirements.map Clause.ofRequirement).map Clause.nrql := by
    show ((s.requirements.map Requirement.plain).map _).map _ = _
    rw [List.map_map, List.map_map, List.map_map]
    apply List.map_congr_left
    intro r _
    exact Clause.nrql_ofRequirement_plain r
  apply String.toList_inj.1
  rw [nrql_addSelector, nrql_addSelector]
  congr 1
  apply whereText_congr
  rw [List.map_append, List.map_append, hconditions]

/-- **The query of a metric tells parsed selectors apart.** For two texts that parse, the metric gives
one query exactly if the texts list the same requirements in the same order, up to `==` for `=`. -/
theorem Metric.build_nrql_eq_iff {t₁ t₂ : String} {s₁ s₂ : Selector} (m : Metric) (cluster : String)
    (h₁ : Selector.parse t₁ = .ok s₁) (h₂ : Selector.parse t₂ = .ok s₂) :
    (m.build cluster (some s₁)).nrql = (m.build cluster (some s₂)).nrql ↔
      s₁.requirements.map Requirement.plain = s₂.requirements.map Requirement.plain := by
  -- the selector is added last, to a query that depends on the metric and the cluster only
  let q : Query := (Query.ofBase m.query).run [.limit, .cluster cluster m.clusterFilter]
  show (q.addSelector (some s₁)).nrql = (q.addSelector (some s₂)).nrql ↔ _
  rw [← q.nrql_addSelector_plain s₁, ← q.nrql_addSelector_plain s₂]
  -- both selectors may be taken with `=` for `==`, which makes them readable
  constructor
  · intro h
    exact congrArg Selector.requirements
      (q.nrql_addSelector_inj (Selector.readable_plain h₁) (Selector.readable_plain h₂) h)
  · intro h
    have hplain : s₁.plain = s₂.plain := congrArg Selector.mk h
    rw [hplain]

/-- Words of NRQL as key and value, with the operator in both spellings. -/
theorem Metric.build_nrql_eq_of_spellings :
    Selector.parse "and==NULL" ≠ Selector.parse " and = NULL\n" ∧
      ((Metric.mk "SELECT 1" true).build "and" (Selector.parse "and==NULL").toOption).nrql =
        ((Metric.mk "SELECT 1" true).build "and" (Selector.parse " and = NULL\n").toOption).nrql := by
  let r₁ : Requirement :=
    ⟨"and", .doubleEquals, ["NULL"], by decide, by decide, by decide, by decide⟩
  let r₂ : Requirement := ⟨"and", .equals, ["NULL"], by decide, by decide, by decide, by decide⟩
  have h₁ : Selector.parse "and==NULL" = .ok ⟨[r₁]⟩ := by decide +kernel
  have h₂ : Selector.parse " and = NULL\n" = .ok ⟨[r₂]⟩ := by decide +kernel
  constructor
  · rw [h₁, h₂]
    intro h
    exact absurd (Except.ok.inj h) (by decide)
  · rw [h₁, h₂]
    exact (build_nrql_eq_iff _ "and" h₁ h₂).2 rfl

end LabelQuery
