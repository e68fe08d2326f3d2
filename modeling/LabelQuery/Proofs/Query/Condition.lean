import LabelQuery.Proofs.Selector.Printing
import LabelQuery.Proofs.Text.Chain
import LabelQuery.Query.Clause

/-!
# Query — reading a condition back

NRQL conditions have no brackets around them, and nothing in a value is escaped. The keys and values
of lexical requirements are made of few characters, and this is enough to read a condition back: the
key ends at a blank, the operator is known before its values begin, and a literal ends before a quote,
a blank, a comma or a parenthesis.

* `Operator.plain`, `Requirement.plain` — with `=` for `==`, which a condition does not tell apart.
* `Literal.written_selfEnding` — a literal can be told from what follows it.
* `Clause.plain_eq_of_append` — so can the condition for a requirement, up to `plain`.
-/

namespace LabelQuery

open Text Label

/-! ## Operators in conditions -/

namespace Operator

/-- The operator with `=` for `==`. -/
def plain : Operator → Operator
  | doubleEquals => equals
  | operator => operator

@[simp] theorem arity_plain (operator : Operator) : operator.plain.arity = operator.arity := by
  cases operator <;> rfl

@[simp] theorem isNumeric_plain (operator : Operator) :
    operator.plain.isNumeric = operator.isNumeric := by
  cases operator <;> rfl

@[simp] theorem plain_plain (operator : Operator) : operator.plain.plain = operator.plain := by
  cases operator <;> rfl

/-- What a condition writes between the key and the values. -/
def opening (operator : Operator) : String :=
  operator.token ++
    match operator.arity with
    | .exactlyOne => " "
    | .atLeastOne => " ("
    | .no => ""

/-- What a condition writes after the values. -/
def closing (operator : Operator) : String :=
  match operator.arity with
  | .atLeastOne => ")"
  | .exactlyOne | .no => ""

@[simp] theorem opening_plain (operator : Operator) : operator.plain.opening = operator.opening := by
  cases operator <;> rfl

@[simp] theorem closing_plain (operator : Operator) : operator.plain.closing = operator.closing := by
  cases operator <;> rfl

/-- What opens the values of one operator does not begin what opens those of another, except for `=`
and `==`. This is why the operator is known before its values are read; one case for each pair. -/
theorem plain_eq_of_opening {a b : Operator} (h : a.opening.toList <+: b.opening.toList) :
    a.plain = b.plain := by
  cases a <;> cases b <;> first | rfl | exact absurd h (by decide)

/-- The operator in a condition is read back from what opens its values, whatever comes after it. -/
theorem opening_append_inj {a b : Operator} {s t : List Char}
    (h : a.opening.toList ++ s = b.opening.toList ++ t) : a.plain = b.plain ∧ s = t := by
  have hplain : a.plain = b.plain := by
    -- both are prefixes of one text, so one of them is a prefix of the other
    have ha : a.opening.toList <+: b.opening.toList ++ t := ⟨s, h⟩
    have hb : b.opening.toList <+: b.opening.toList ++ t := List.prefix_append _ t
    rcases List.prefix_or_prefix_of_prefix ha hb with hab | hba
    · exact plain_eq_of_opening hab
    · exact (plain_eq_of_opening hba).symm
  refine ⟨hplain, ?_⟩
  -- the same text opens both, so it falls away
  rw [← opening_plain a, hplain, opening_plain b] at h
  exact List.append_cancel_left h

theorem closing_cases (operator : Operator) : operator.closing = ")" ∨ operator.closing = "" := by
  cases operator <;> decide

end Operator

/-! ## Literals in conditions -/

/-- What an operator is compared with is made of the characters of names, also where it is an
integer. -/
theorem Draft.IsOperand.chars {operator : Operator} {cs : List Char}
    (h : Draft.IsOperand operator cs) : ∀ c ∈ cs, isNameChar c := by
  unfold Draft.IsOperand at h
  split at h
  · obtain ⟨n, hn⟩ := h
    -- a digit is a character of a name, and so is the minus sign
    have hdigit : ∀ c : Char, c.isDigit → isNameChar c := by
      intro c hc
      simp [isNameChar, Char.isAlphanum, hc]
    cases hn with
    | plain hds => exact fun c hc => hdigit c (hds.2 c hc)
    | minus hds =>
      intro c hc
      rcases List.mem_cons.1 hc with rfl | hc
      · decide
      · exact hdigit c (hds.2 c hc)
  · exact h.chars

theorem Number.ne_nil_of_isNumeric {cs : List Char} (h : isNumeric cs) : cs ≠ [] := by
  rintro rfl
  exact absurd h (by decide)

namespace Literal

/-- The text of a value in a condition. -/
def written (v : String) : List Char :=
  (classify v).nrql.toList

theorem written_of_isNumeric {v : String} (h : Number.isNumeric v.toList) :
    written v = v.toList := by
  rw [written, classify, if_pos h]
  rfl

theorem written_of_not_isNumeric {v : String} (h : ¬ Number.isNumeric v.toList) :
    written v = '\'' :: (v.toList ++ ['\'']) := by
  rw [written, classify, if_neg h]
  show ("'" ++ v ++ "'").toList = _
  rw [String.toList_append, String.toList_append]
  rfl

/-- A bare literal is never taken for a quoted one: its first character is one of a name. -/
theorem bare_ne_quoted {v : String} {s t : List Char} (hnum : Number.isNumeric v.toList)
    (hv : ∀ c ∈ v.toList, isNameChar c) : v.toList ++ s ≠ '\'' :: t := by
  intro h
  cases hcs : v.toList with
  | nil => exact Number.ne_nil_of_isNumeric hnum hcs
  | cons c cs =>
    -- a bare literal begins with a character of a name, and a quote is none
    rw [hcs, List.cons_append, List.cons.injEq] at h
    have hc : isNameChar c := hv c (by rw [hcs]; exact List.mem_cons_self)
    rw [h.1] at hc
    exact absurd hc (by decide)

/-- **A literal can be told from what follows it**, if its value holds only characters of names: a
bare one is ended by the first other character, a quoted one by the quote. -/
theorem written_selfEnding :
    SelfEnding isNameChar (fun v : String => ∀ c ∈ v.toList, isNameChar c) written := by
  intro v w s t hv hw hs ht h
  by_cases hnumv : Number.isNumeric v.toList
  · by_cases hnumw : Number.isNumeric w.toList
    · rw [written_of_isNumeric hnumv, written_of_isNumeric hnumw] at h
      obtain ⟨hvw, hst⟩ := append_inj_of_stops hv hw hs ht h
      exact ⟨String.toList_inj.1 hvw, hst⟩
    · rw [written_of_isNumeric hnumv, written_of_not_isNumeric hnumw, List.cons_append] at h
      exact absurd h (bare_ne_quoted hnumv hv)
  · by_cases hnumw : Number.isNumeric w.toList
    · rw [written_of_not_isNumeric hnumv, written_of_isNumeric hnumw, List.cons_append] at h
      exact absurd h.symm (bare_ne_quoted hnumw hw)
    · rw [written_of_not_isNumeric hnumv, written_of_not_isNumeric hnumw] at h
      -- the opening quotes fall away, and the closing ones end the values
      have hinner : v.toList ++ '\'' :: s = w.toList ++ '\'' :: t := by
        simpa using h
      have hquote : ∀ u : List Char, Stops isNameChar ('\'' :: u) := by
        intro u
        rw [stops_cons]
        decide
      obtain ⟨hvw, hst⟩ := append_inj_of_stops hv hw (hquote s) (hquote t) hinner
      exact ⟨String.toList_inj.1 hvw, (List.cons.inj hst).2⟩

/-- The values of a condition, with commas between them. -/
def listed (values : List String) : List Char :=
  (", ".intercalate (values.map fun v => (classify v).nrql)).toList

theorem listed_nil : listed [] = [] := rfl

/-- The values of a condition are the first literal and a chain of the others, each after its
comma. -/
theorem listed_cons (v : String) (values : List String) :
    listed (v :: values) = written v ++ chain ", ".toList written values :=
  toList_intercalate_cons ", " (fun v => (classify v).nrql) v values

/-- The comma between two literals ends a bare one. -/
theorem stops_comma (s : List Char) : Stops isNameChar (", ".toList ++ s) := by
  show Stops isNameChar (',' :: ' ' :: s)
  rw [stops_cons]
  decide

/-- Two lists of values, both empty or neither, are read back with what follows them. The first
literals end themselves, and the others are a chain. -/
theorem listed_append_inj {vs ws : List String} {s t : List Char}
    (hvs : ∀ v ∈ vs, ∀ c ∈ v.toList, isNameChar c) (hws : ∀ w ∈ ws, ∀ c ∈ w.toList, isNameChar c)
    (hempty : vs = [] ↔ ws = []) (hs : Stops isNameChar s) (ht : Stops isNameChar t)
    (hends : ¬ ", ".toList <+: s) (hendt : ¬ ", ".toList <+: t)
    (h : listed vs ++ s = listed ws ++ t) : vs = ws ∧ s = t := by
  cases vs with
  | nil =>
    rw [hempty.1 rfl] at h ⊢
    exact ⟨rfl, h⟩
  | cons v vs =>
    cases ws with
    | nil => exact absurd (hempty.2 rfl) (List.cons_ne_nil v vs)
    | cons w ws =>
      rw [listed_cons, listed_cons, List.append_assoc, List.append_assoc] at h
      -- the first literal ends at the comma of the second, or at what follows the list
      obtain ⟨hfirst, htails⟩ := written_selfEnding (hvs v List.mem_cons_self)
        (hws w List.mem_cons_self) (stops_chain stops_comma hs vs) (stops_chain stops_comma ht ws) h
      obtain ⟨hothers, hrest⟩ := chain_append_inj written_selfEnding stops_comma
        (fun x hx => hvs x (List.mem_cons_of_mem _ hx))
        (fun x hx => hws x (List.mem_cons_of_mem _ hx)) hs ht hends hendt htails
      exact ⟨by rw [hfirst, hothers], hrest⟩

end Literal

/-! ## Conditions for requirements -/

namespace Requirement

/-- The requirement with `=` for `==`. -/
def plain (r : Requirement) : Requirement :=
  { r with
    operator := r.operator.plain
    allows := by rw [Operator.arity_plain]; exact r.allows
    integers := by rw [Operator.isNumeric_plain]; exact r.integers }

/-- The values of a lexical requirement are made of the characters of names. -/
theorem Lexical.chars {r : Requirement} (h : r.Lexical) :
    ∀ v ∈ r.values, ∀ c ∈ v.toList, isNameChar c := by
  intro v hv
  have hoperand : Draft.IsOperand r.operator v.toList := (lexical_iff.1 h).2 v hv
  exact hoperand.chars

/-- Whether a requirement has values is known from its operator. -/
theorem values_eq_nil_iff (r : Requirement) : r.values = [] ↔ r.operator.arity = .no := by
  constructor
  · intro hnil
    cases harity : r.operator.arity with
    | no => rfl
    | exactlyOne => exact absurd ((values_eq harity).symm.trans hnil) (List.cons_ne_nil _ _)
    | atLeastOne => exact absurd hnil (values_ne_of_atLeastOne harity)
  · intro hno
    exact values_of_no hno

/-- Two requirements are the same up to `==` exactly if their keys and values are the same, and
their operators up to `==`. -/
theorem plain_eq_iff {r q : Requirement} : r.plain = q.plain ↔
    r.key = q.key ∧ r.operator.plain = q.operator.plain ∧ r.values = q.values := by
  constructor
  · intro h
    have hkey : r.plain.key = q.plain.key := by rw [h]
    have hoperator : r.plain.operator = q.plain.operator := by rw [h]
    have hvalues : r.plain.values = q.plain.values := by rw [h]
    exact ⟨hkey, hoperator, hvalues⟩
  · rintro ⟨hkey, hoperator, hvalues⟩
    exact eq_of_parts hkey hoperator hvalues

end Requirement

namespace Clause

/-- The text of the condition for a requirement: the key, what opens the values, the values, and
what closes them. This is the one form in which conditions are compared, so nothing below looks at
the three kinds of clauses. -/
theorem nrql_ofRequirement (r : Requirement) : (ofRequirement r).nrql.toList =
    r.key.toList ++ ' ' :: (r.operator.opening.toList
      ++ (Literal.listed r.values ++ r.operator.closing.toList)) := by
  -- one clause for each arity, and its text in the one form
  unfold ofRequirement
  split
  · next harity =>
    have hvalues : r.values = [r.value harity] := Requirement.values_eq harity
    rw [hvalues, Literal.listed_cons]
    simp [nrql, Operator.opening, Operator.closing, harity, Literal.written]
  · next harity =>
    simp [nrql, Operator.opening, Operator.closing, harity, Literal.listed, Function.comp_def]
  · next harity =>
    rw [Requirement.values_of_no harity, Literal.listed_nil]
    simp [nrql, Operator.opening, Operator.closing, harity]

/-- A condition reads the same with `=` for `==`. -/
theorem nrql_ofRequirement_plain (r : Requirement) :
    (ofRequirement r.plain).nrql = (ofRequirement r).nrql := by
  apply String.toList_inj.1
  rw [nrql_ofRequirement, nrql_ofRequirement]
  show _ ++ ' ' :: (r.operator.plain.opening.toList
    ++ (_ ++ r.operator.plain.closing.toList)) = _
  rw [Operator.opening_plain, Operator.closing_plain]
  rfl

/-- What comes after the values of a condition does not go on with them: it is a parenthesis, a
blank or the end of the text, and none of these begins a further literal or a comma. -/
theorem stops_closing (operator : Operator) {s : List Char} (hs : Stops (· != ' ') s) :
    Stops isNameChar (operator.closing.toList ++ s) ∧
      ¬ ", ".toList <+: operator.closing.toList ++ s := by
  rcases operator.closing_cases with hclose | hclose
  · rw [hclose]
    show Stops isNameChar (')' :: s) ∧ ¬ [',', ' '] <+: ')' :: s
    constructor
    · rw [stops_cons]
      decide
    · intro hcomma
      have hhead := (List.cons_prefix_cons.1 hcomma).1
      exact absurd hhead (by decide)
  · rw [hclose]
    show Stops isNameChar s ∧ ¬ [',', ' '] <+: s
    cases s with
    | nil => exact ⟨stops_nil _, by simp⟩
    | cons c s =>
      have hc : c = ' ' := by simpa using hs
      rw [hc]
      constructor
      · rw [stops_cons]
        decide
      · intro hcomma
        have hhead := (List.cons_prefix_cons.1 hcomma).1
        exact absurd hhead (by decide)

/-- **The condition for a lexical requirement can be told from what follows it**, if that is nothing
or begins with a blank. -/
theorem plain_eq_of_append {r q : Requirement} {s t : List Char} (hr : r.Lexical) (hq : q.Lexical)
    (hs : Stops (· != ' ') s) (ht : Stops (· != ' ') t)
    (h : (ofRequirement r).nrql.toList ++ s = (ofRequirement q).nrql.toList ++ t) :
    r.plain = q.plain ∧ s = t := by
  rw [nrql_ofRequirement, nrql_ofRequirement] at h
  simp only [List.append_assoc, List.cons_append] at h
  -- the key ends at the first blank
  have hblank : ∀ u : List Char, Stops isKeyChar (' ' :: u) := by
    intro u
    rw [stops_cons]
    decide
  obtain ⟨hkey, hafter⟩ := append_inj_of_stops (Requirement.lexical_iff.1 hr).1.chars
    (Requirement.lexical_iff.1 hq).1.chars (hblank _) (hblank _) h
  -- then comes the operator, and with it whether there are values
  obtain ⟨hoperator, hbody⟩ := Operator.opening_append_inj (List.cons.inj hafter).2
  have hempty : r.values = [] ↔ q.values = [] := by
    rw [r.values_eq_nil_iff, q.values_eq_nil_iff, ← Operator.arity_plain, hoperator,
      Operator.arity_plain]
  have hclosing : r.operator.closing = q.operator.closing := by
    rw [← Operator.closing_plain, hoperator, Operator.closing_plain]
  -- the values end at what closes them
  obtain ⟨hstop, hcomma⟩ := stops_closing r.operator hs
  obtain ⟨hstop', hcomma'⟩ := stops_closing q.operator ht
  obtain ⟨hvalues, hrest⟩ := Literal.listed_append_inj hr.chars hq.chars hempty hstop hstop' hcomma
    hcomma' hbody
  rw [hclosing] at hrest
  exact ⟨Requirement.plain_eq_iff.2 ⟨String.toList_inj.1 hkey, hoperator, hvalues⟩,
    List.append_cancel_left hrest⟩

end Clause

end LabelQuery
