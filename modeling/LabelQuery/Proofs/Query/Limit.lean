import LabelQuery.Proofs.Query.NormalForm

/-!
# Query — one limit, however often a query is wrapped again

The text of a query may become the base of a new one. Then the limit is no longer a mark on the query,
but a word of its base, and has to be found there before another one is added. It is found: it stands
right after the old base, so whatever conditions follow it, there is a blank on either side.

* `Query.Edit` — a step, or a new start from the text.
* `Query.hasLimit_edit`, `Query.hasLimit_edits` — a query that is limited stays limited.
* `Query.limitsAdded` — how often a run of edits adds a limit.
* `Query.limit_added_once` — at most once, and never to a text that has one.
-/

namespace LabelQuery.Query

/-- A step of assembly, or a new query that has the text so far for its base. -/
inductive Edit
  | step (s : Step)
  | rebase
  deriving DecidableEq

/-- The query after one edit. -/
def edit (q : Query) : Edit → Query
  | .step s => q.apply s
  | .rebase => q.rebase

/-- The query after a run of edits. -/
def edits (q : Query) (es : List Edit) : Query :=
  es.foldl edit q

/-- How many edits of a run add a limit to the query they find. -/
def limitsAdded (q : Query) : List Edit → Nat
  | [] => 0
  | e :: es => (if e = .step .limit ∧ q.addLimit ≠ q then 1 else 0) + limitsAdded (q.edit e) es

/-! ## One edit -/

theorem addLimit_eq_self {q : Query} (h : q.hasLimit) : q.addLimit = q :=
  if_pos h

/-- A query that was asked for a limit has one: it was there, or the mark is set. -/
theorem hasLimit_addLimit (q : Query) : q.addLimit.hasLimit := by
  unfold addLimit
  split
  · next h => exact h
  · exact Bool.true_or _

/-- The text of a limited query has a limit: the base has one, or there is one right after it. The
blank that ends the word is part of what is added, so the conditions do not matter. -/
theorem hasLimitWord_nrql {q : Query} (h : q.hasLimit) : hasLimitWord q.nrql := by
  -- up to the conditions the text has a limit
  have hstart : hasLimitWord (q.base ++ if q.limited then " limit 1" else "") := by
    unfold hasLimitWord
    rw [String.toList_append]
    rcases Bool.or_eq_true_iff.1 h with hlimited | hbase
    · rw [if_pos hlimited]
      exact Text.holdsAnyCase_append_left (by decide) q.base.toList
    · exact Text.holdsAnyCase_append_right hbase _
  rw [nrql_eq]
  unfold hasLimitWord
  rw [String.toList_append]
  exact Text.holdsAnyCase_append_right hstart _

/-- **A query that is limited stays limited.** A step keeps the mark and the base; a new start loses
the mark, but then the text has the limit. -/
theorem hasLimit_edit {q : Query} (h : q.hasLimit) (e : Edit) : (q.edit e).hasLimit := by
  cases e with
  | step s =>
    -- a mark is never taken away, and no step changes the base
    show (q.apply s).hasLimit
    rw [apply_eq, hasLimit_iff]
    exact (hasLimit_iff.1 h).imp_left fun hlimited => Bool.or_eq_true_iff.2 (.inl hlimited)
  | rebase => exact Bool.or_eq_true_iff.2 (.inr (hasLimitWord_nrql h))

/-! ## Runs of edits -/

theorem edits_append (q : Query) (before after : List Edit) :
    q.edits (before ++ after) = (q.edits before).edits after :=
  List.foldl_append

/-- A limited query stays limited over a run of edits. Induction on the edits. -/
theorem hasLimit_edits {q : Query} (h : q.hasLimit) (es : List Edit) : (q.edits es).hasLimit := by
  induction es generalizing q with
  | nil => exact h
  | cons e es ih => exact ih (hasLimit_edit h e)

/-- A run in which a limit was asked for leaves a limited query: it is limited right after that
edit, and stays so. -/
theorem hasLimit_edits_of_mem (q : Query) {es : List Edit} (h : .step .limit ∈ es) :
    (q.edits es).hasLimit := by
  obtain ⟨before, after, rfl⟩ := List.append_of_mem h
  rw [edits_append]
  exact hasLimit_edits (hasLimit_addLimit (q.edits before)) after

/-- No limit is added to a limited query. Induction on the edits, each of which keeps the query
limited. -/
theorem limitsAdded_eq_zero {q : Query} (h : q.hasLimit) (es : List Edit) :
    q.limitsAdded es = 0 := by
  induction es generalizing q with
  | nil => rfl
  | cons e es ih =>
    rw [limitsAdded, if_neg fun hadds => hadds.2 (addLimit_eq_self h), ih (hasLimit_edit h e)]

/-- At most one limit is added. Induction on the edits: the first one that adds a limit leaves
nothing to add to the others. -/
theorem limitsAdded_le_one (q : Query) (es : List Edit) : q.limitsAdded es ≤ 1 := by
  induction es generalizing q with
  | nil => exact Nat.zero_le 1
  | cons e es ih =>
    rw [limitsAdded]
    split
    · next hadds =>
      obtain ⟨rfl, -⟩ := hadds
      -- the query has a limit from here on
      have hrest := limitsAdded_eq_zero (hasLimit_addLimit q) es
      show 1 + q.addLimit.limitsAdded es ≤ 1
      omega
    · rw [Nat.zero_add]
      exact ih (q.edit e)

/-- **A limit is added at most once**, by any steps and any wrapping of the text. A query that is
limited at some point, as it is once a limit was asked for, stays limited, and asking again leaves it
as it is. To a text that contains a limit none is added. -/
theorem limit_added_once (base : String) (before after : List Edit) :
    (((ofBase base).edits before).hasLimit →
      ((ofBase base).edits (before ++ after)).hasLimit ∧
      ((ofBase base).edits (before ++ after)).addLimit = (ofBase base).edits (before ++ after)) ∧
    (.step .limit ∈ before → ((ofBase base).edits before).hasLimit) ∧
    (ofBase base).limitsAdded before ≤ 1 ∧
    (ContainsLimit base → (ofBase base).limitsAdded before = 0) := by
  refine ⟨?_, hasLimit_edits_of_mem (ofBase base), limitsAdded_le_one (ofBase base) before, ?_⟩
  · -- asked for again, a limit is found to be there
    intro h
    have hlater : ((ofBase base).edits (before ++ after)).hasLimit := by
      rw [edits_append]
      exact hasLimit_edits h after
    exact ⟨hlater, addLimit_eq_self hlater⟩
  · intro h
    exact limitsAdded_eq_zero (hasLimit_iff.2 (.inr h)) before

end LabelQuery.Query
