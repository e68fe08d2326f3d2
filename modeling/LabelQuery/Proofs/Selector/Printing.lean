import LabelQuery.Proofs.Selector.Parsing

/-!
# Selector — printing and parsing

The text of a selector has no quotes, so a key or a value that holds a comma, a sign or a blank may be
read as something else. Printing is undone by parsing exactly if every key and every value is a word
that its reader takes whole, and parsing gives only such selectors.

* `Requirement.Lexical` — the key and the values of a requirement are such words.
* `Requirement.written_text` — the text of such a requirement has a form of the grammar.
* `Selector.parse_text_iff` — parsing undoes printing, and exactly when.
-/

namespace LabelQuery

open Text Label

theorem Operator.isNumeric_of_atLeastOne {operator : Operator} :
    operator.arity = .atLeastOne → operator.isNumeric = false := by
  cases operator <;> decide

theorem Operator.present_or_absent_of_no {operator : Operator} :
    operator.arity = .no → operator = .present ∨ operator = .absent := by
  cases operator <;> decide

namespace Requirement

/-- The key of a requirement is taken whole as a label key, and its values as integers for `>` and `<`
and as label values for the other operators. -/
def Lexical (r : Requirement) : Prop :=
  key? r.key.toList = some (r.key.toList, []) ∧
    ∀ v ∈ r.values,
      (if r.operator.isNumeric then integer? v.toList else value? v.toList) = some (v.toList, [])

/-- A word is taken whole by its reader exactly if it is a word of the grammar, so being lexical is
a condition on the key and the values alone. -/
theorem lexical_iff {r : Requirement} : r.Lexical ↔
    IsKey r.key.toList ∧ ∀ v ∈ r.values, Draft.IsOperand r.operator v.toList := by
  unfold Lexical Draft.IsOperand
  rw [key?_whole_iff]
  refine and_congr_right fun _ => forall_congr' fun v => imp_congr_right fun _ => ?_
  split
  · exact integer?_whole_iff
  · exact value?_whole_iff

/-! ## What is written is lexical -/

/-- The values of a set that is written are label values. Induction on how they are written. -/
theorem isValue_of_writtenValues {body : List Char} {values : List String}
    (h : Draft.WrittenValues body values) : ∀ v ∈ values, IsValue v.toList := by
  induction h with
  | one hv =>
    intro v hmem
    rw [List.mem_singleton] at hmem
    rw [hmem, String.toList_ofList]
    exact hv
  | more hv _ _ _ ih =>
    intro v hmem
    rcases List.mem_cons.1 hmem with rfl | hmem
    · rw [String.toList_ofList]
      exact hv
    · exact ih v hmem

/-- The key of a form is a label key, and its values are what its operator is compared with. -/
theorem parts_of_written {body : List Char} {d : Draft} (h : d.Written body) :
    IsKey d.key.toList ∧ ∀ v ∈ d.values, Draft.IsOperand d.operator v.toList := by
  cases h with
  | absent _ hkey => exact ⟨by rwa [String.toList_ofList], by simp⟩
  | present hkey => exact ⟨by rwa [String.toList_ofList], by simp⟩
  | comparison hkey _ _ _ hv =>
    refine ⟨by rwa [String.toList_ofList], fun v hmem => ?_⟩
    rw [List.mem_singleton] at hmem
    rw [hmem, String.toList_ofList]
    exact hv
  | set hkey _ _ hword _ _ hbody =>
    -- neither word of a set test asks for integers
    refine ⟨by rwa [String.toList_ofList], fun v hmem => ?_⟩
    have hvalue := isValue_of_writtenValues hbody v hmem
    cases hword <;> exact hvalue

/-- A requirement that some text writes is lexical: dropping repeats leaves values that are written.
-/
theorem Written.lexical {body : List Char} {r : Requirement} (h : r.Written body) : r.Lexical := by
  obtain ⟨d, hd, -, hkey, hoperator, hvalues⟩ := h
  obtain ⟨hiskey, hoperands⟩ := parts_of_written hd
  rw [lexical_iff, hkey, hoperator, hvalues]
  exact ⟨hiskey, fun v hv => hoperands v (List.mem_eraseDups.1 hv)⟩

/-! ## What is lexical is written -/

/-- The sign that is printed for a comparison is the sign of its operator in the grammar. -/
theorem sign_sign {operator : Operator} (h : operator.arity = .exactlyOne) :
    Draft.Sign (sign operator).toList operator := by
  cases operator with
  | equals => exact .equals
  | doubleEquals => exact .doubleEquals
  | notEquals => exact .notEquals
  | greaterThan => exact .greaterThan
  | lessThan => exact .lessThan
  | present => cases h
  | absent => cases h
  | oneOf => cases h
  | noneOf => cases h

/-- The word that is printed for a set test is the word of its operator in the grammar. -/
theorem word_spelling {operator : Operator} (h : operator.arity = .atLeastOne) :
    Draft.Word operator.spelling.toList operator := by
  cases operator with
  | oneOf => exact .oneOf
  | noneOf => exact .noneOf
  | equals => cases h
  | doubleEquals => cases h
  | notEquals => cases h
  | greaterThan => cases h
  | lessThan => cases h
  | present => cases h
  | absent => cases h

/-- Label values that are put together with commas are the values of a set, without blanks.
Induction on the values; the list is never empty, so it ends with a value of its own. -/
theorem writtenValues_intercalate {values : List String} (hne : values ≠ [])
    (h : ∀ v ∈ values, IsValue v.toList) :
    Draft.WrittenValues (",".intercalate values).toList values := by
  induction values with
  | nil => exact absurd rfl hne
  | cons v values ih =>
    have hv : IsValue v.toList := h v List.mem_cons_self
    cases values with
    | nil =>
      have hone := Draft.WrittenValues.one hv
      rwa [String.ofList_toList] at hone
    | cons v' values =>
      have htail := ih (by simp) fun w hw => h w (List.mem_cons_of_mem _ hw)
      have hmore := Draft.WrittenValues.more hv allBlank_nil allBlank_nil htail
      rw [String.ofList_toList] at hmore
      simpa using hmore

/-! ## The text of a requirement -/

/-- The text of a comparison: the key, the sign and the one value, without blanks. -/
theorem text_of_exactlyOne {r : Requirement} (h : r.operator.arity = .exactlyOne) :
    r.text = r.key ++ sign r.operator ++ r.value h := by
  unfold text
  split
  · rfl
  · next h' => rw [h] at h'; cases h'
  · next h' => rw [h] at h'; cases h'

/-- The text of a set test: the word between two spaces, and the values in parentheses. -/
theorem text_of_atLeastOne {r : Requirement} (h : r.operator.arity = .atLeastOne) :
    r.text = r.key ++ " " ++ r.operator.spelling ++ " (" ++ ",".intercalate r.values ++ ")" := by
  unfold text
  split
  · next h' => rw [h] at h'; cases h'
  · rfl
  · next h' => rw [h] at h'; cases h'

/-- The text of a requirement without values: the key, after an exclamation mark if it must be
absent. -/
theorem text_of_no {r : Requirement} (h : r.operator.arity = .no) :
    r.text = if r.operator = .absent then "!" ++ r.key else r.key := by
  unfold text
  split
  · next h' => rw [h] at h'; cases h'
  · next h' => rw [h] at h'; cases h'
  · rfl

/-- An operator without values leaves a requirement none, by the number of values that it
carries. -/
theorem values_of_no {r : Requirement} (h : r.operator.arity = .no) : r.values = [] := by
  have hallows := r.allows
  rw [h] at hallows
  exact List.eq_nil_of_length_eq_zero hallows

/-- A set test has at least one value, by the number of values that it carries. -/
theorem values_ne_of_atLeastOne {r : Requirement} (h : r.operator.arity = .atLeastOne) :
    r.values ≠ [] := by
  intro hnil
  have hallows := r.allows
  rw [h, hnil] at hallows
  exact hallows rfl

/-- The text of a lexical requirement has the form that goes with its operator. One case for each
arity, which is what the printer looks at; the printed text is the form with the blanks of that
case. -/
theorem draft_written_text {r : Requirement} (h : r.Lexical) :
    Draft.Written r.text.toList ⟨r.key, r.operator, r.values⟩ := by
  obtain ⟨hkey, hvalues⟩ := lexical_iff.1 h
  have hofList : String.ofList r.key.toList = r.key := String.ofList_toList
  cases harity : r.operator.arity with
  | exactlyOne =>
    -- the one value is an operand, and stands right after the sign
    have hvalue : r.values = [r.value harity] := values_eq harity
    have hoperand : Draft.IsOperand r.operator (r.value harity).toList := by
      refine hvalues _ ?_
      rw [hvalue]
      exact List.mem_singleton_self _
    have hwritten := Draft.Written.comparison hkey allBlank_nil (sign_sign harity) allBlank_nil
      hoperand
    rw [hofList, String.ofList_toList, ← hvalue] at hwritten
    rw [text_of_exactlyOne harity]
    simpa using hwritten
  | atLeastOne =>
    have hnum : r.operator.isNumeric = false := Operator.isNumeric_of_atLeastOne harity
    have hbody := writtenValues_intercalate (values_ne_of_atLeastOne harity) fun v hv => by
      simpa [Draft.IsOperand, hnum] using hvalues v hv
    -- the printer puts one space on each side of the word, and none in the parentheses
    have hspace : AllBlank [' '] := by simp [AllBlank, isBlank]
    have hwritten := Draft.Written.set hkey hspace (by simp) (word_spelling harity) hspace
      allBlank_nil hbody allBlank_nil
    rw [hofList] at hwritten
    rw [text_of_atLeastOne harity]
    simpa using hwritten
  | no =>
    rw [text_of_no harity, values_of_no harity]
    -- the key alone asks for its presence, and for its absence after an exclamation mark
    rcases Operator.present_or_absent_of_no harity with hop | hop
    · have hwritten := Draft.Written.present hkey
      rw [hofList] at hwritten
      rw [hop, if_neg (by decide)]
      exact hwritten
    · have hwritten := Draft.Written.absent allBlank_nil hkey
      rw [hofList] at hwritten
      rw [hop, if_pos rfl]
      simpa using hwritten

/-- The text of a lexical requirement writes it, as building from its own parts gives it back. -/
theorem written_text {r : Requirement} (h : r.Lexical) : r.Written r.text.toList :=
  written_iff_build.2 ⟨_, draft_written_text h, build_self r⟩

end Requirement

namespace Selector

/-- The texts of lexical requirements that are put together with commas are a list of the
grammar. -/
theorem writtenList_intercalate {rs : List Requirement} (hne : rs ≠ [])
    (h : ∀ r ∈ rs, r.Lexical) :
    WrittenList (",".intercalate (rs.map Requirement.text)).toList rs := by
  induction rs with
  | nil => exact absurd rfl hne
  | cons r rs ih =>
    have hr := Requirement.written_text (h r List.mem_cons_self)
    cases rs with
    | nil => exact .one hr
    | cons r' rs =>
      -- the comma stands directly between two requirements
      have htail := ih (by simp) fun q hq => h q (List.mem_cons_of_mem _ hq)
      have hmore := WrittenList.more hr allBlank_nil allBlank_nil htail
      simpa using hmore

/-- The text of a selector writes it when all its requirements are lexical. The empty selector prints
the empty text, which writes nothing. -/
theorem written_text {s : Selector} (h : ∀ r ∈ s.requirements, r.Lexical) :
    Written s.text.toList s := by
  obtain ⟨rs⟩ := s
  by_cases hne : rs = []
  · rw [hne]
    exact .nothing allBlank_nil
  · have hwritten := Written.listed allBlank_nil (writtenList_intercalate hne h) allBlank_nil
    simpa [text] using hwritten

/-- All requirements of a list that is written are lexical. -/
theorem WrittenList.lexical {list : List Char} {rs : List Requirement} (h : WrittenList list rs) :
    ∀ r ∈ rs, r.Lexical := by
  induction h with
  | one hr =>
    intro r hmem
    rw [List.mem_singleton] at hmem
    rw [hmem]
    exact hr.lexical
  | more hr _ _ _ ih =>
    intro r hmem
    rcases List.mem_cons.1 hmem with rfl | hmem
    · exact hr.lexical
    · exact ih r hmem

/-- All requirements of a selector that is written are lexical. -/
theorem Written.lexical {cs : List Char} {s : Selector} (h : Written cs s) :
    ∀ r ∈ s.requirements, r.Lexical := by
  cases h with
  | nothing => intro r hmem; cases hmem
  | listed _ hbody _ => exact hbody.lexical

/-- **Parsing undoes printing exactly on the lexical selectors.** These are also the selectors that
parsing gives, so what was parsed is given back by printing and parsing it again. -/
theorem parse_text_iff (s : Selector) :
    (parse s.text = .ok s ↔ ∀ r ∈ s.requirements, r.Lexical) ∧
      ∀ text, parse text = .ok s → (∀ r ∈ s.requirements, r.Lexical) ∧ parse s.text = .ok s := by
  have hprint : (∀ r ∈ s.requirements, r.Lexical) → parse s.text = .ok s := by
    intro h
    exact parse_ok_iff.2 (written_text h)
  -- what is accepted is written, and what is written is lexical
  have hparse : ∀ text, parse text = .ok s → ∀ r ∈ s.requirements, r.Lexical := by
    intro text h
    exact (parse_ok_iff.1 h).lexical
  exact ⟨⟨hparse s.text, hprint⟩, fun text h => ⟨hparse text h, hprint (hparse text h)⟩⟩

end Selector

end LabelQuery
