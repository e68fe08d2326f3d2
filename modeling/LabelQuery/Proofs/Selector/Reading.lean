import LabelQuery.Proofs.Selector.Building
import LabelQuery.Proofs.Selector.Draft

/-!
# Selector — reading a requirement that makes sense

A requirement that is written makes sense unless an integer is out of range: its key is not empty and
it has as many values as its operator takes. So reading a requirement finds what the grammar says,
and is invalid only where an order test is written with too large an integer.

* `build_error_of_written` — what is written is refused only for an integer out of range.
* `written_iff_build` — the requirement that a text writes is the one built from what is written.
* `read_written`, `read_of_written` — soundness and completeness of reading one requirement.
* `read_invalid` — an invalid reading is an order test with an integer outside of 64 bits.
-/

namespace LabelQuery.Requirement

open Text Label

/-! ## What is written makes sense up to the range of integers -/

/-- A value that denotes an integer is accepted as one exactly when it fits in 64 bits. -/
theorem isInteger_iff {v : String} {n : Int} (hv : WritesInt v.toList n) :
    IsInteger v ↔ Number.InInt64 n :=
  int64?_isSome_iff hv

/-- Every form has a key that is not empty, so the fault of an empty key does not come from a
text. -/
theorem key_ne_of_written {body : List Char} {d : Draft} (h : d.Written body) : d.key ≠ "" := by
  -- the key of a form is that of the grammar, as a string
  have hne : ∀ {key : List Char}, IsKey key → String.ofList key ≠ "" := by
    intro key hkey heq
    exact hkey.ne_nil (by simpa using congrArg String.toList heq)
  cases h with
  | absent _ hkey => exact hne hkey
  | present hkey => exact hne hkey
  | comparison hkey => exact hne hkey
  | set hkey => exact hne hkey

theorem values_ne_nil {body : List Char} {values : List String}
    (h : Draft.WrittenValues body values) : values ≠ [] := by
  cases h <;> simp

/-- Every form has as many values as its operator takes, also when repeats are dropped. -/
theorem allows_of_written {body : List Char} {d : Draft} (h : d.Written body) :
    d.operator.arity.Allows (distinct d.values).length := by
  cases h with
  | absent => rfl
  | present => rfl
  | comparison _ _ hsign => cases hsign <;> rfl
  | set _ _ _ hword _ _ hbody =>
    -- a set keeps at least one of the values that are written
    have hne : ∀ {values : List String}, values ≠ [] → (distinct values).length ≠ 0 := by
      intro values hvalues hlength
      obtain ⟨v, vs, rfl⟩ := List.exists_cons_of_ne_nil hvalues
      have hmem : v ∈ distinct (v :: vs) := mem_distinct.2 List.mem_cons_self
      rw [List.eq_nil_of_length_eq_zero hlength] at hmem
      cases hmem
    cases hword <;> exact hne (values_ne_nil hbody)

/-- What is written after `>` and `<` denotes an integer, of any size. The other forms have no such
operator. -/
theorem writesInt_of_written {body : List Char} {d : Draft} (h : d.Written body)
    (hnum : d.operator.isNumeric) : ∀ v ∈ d.values, ∃ n, WritesInt v.toList n := by
  cases h with
  | absent => cases hnum
  | present => cases hnum
  | comparison _ _ _ _ hv =>
    rw [Draft.IsOperand, if_pos hnum] at hv
    intro v hmem
    rw [List.mem_singleton] at hmem
    rw [hmem, String.toList_ofList]
    exact hv
  | set _ _ _ hword =>
    cases hword with
    | oneOf => cases hnum
    | noneOf => cases hnum

/-- A requirement that is written is refused only for an integer out of range: the grammar leaves no
room for the other faults. -/
theorem build_error_of_written {body : List Char} {d : Draft} (h : d.Written body)
    {e : SelectorError} (he : build d.key d.operator d.values = .error e) :
    ∃ v ∈ d.values, e = .notAnInteger d.operator v ∧ d.operator.isNumeric ∧ ¬ IsInteger v := by
  rcases build_error_cases he with hkey | hallows | hinteger
  · exact absurd hkey (key_ne_of_written h)
  · exact absurd (allows_of_written h) hallows
  · exact hinteger

/-- Of what is written only integers in range can be built. -/
theorem inRange_of_build {body : List Char} {d : Draft} (h : d.Written body) {r : Requirement}
    (hr : build d.key d.operator d.values = .ok r) : d.InRange := by
  intro hnum v hv
  obtain ⟨-, hoperator, hvalues⟩ := parts_of_build hr
  obtain ⟨n, hn⟩ := writesInt_of_written h hnum v hv
  -- the requirement that is built knows that its values are integers
  have hinteger : IsInteger v := by
    refine r.integers (hoperator ▸ hnum) v ?_
    rw [hvalues]
    exact mem_distinct.2 hv
  exact ⟨n, hn, (isInteger_iff hn).1 hinteger⟩

/-- The requirement that a text writes is the one built from what is written there. This joins the
grammar, which states the range of integers and drops repeats, with building, which checks the one
and does the other. -/
theorem written_iff_build {body : List Char} {r : Requirement} :
    r.Written body ↔ ∃ d : Draft, d.Written body ∧ build d.key d.operator d.values = .ok r := by
  constructor
  · rintro ⟨d, hd, -, hparts⟩
    exact ⟨d, hd, build_eq_ok_iff.2 hparts⟩
  · rintro ⟨d, hd, hr⟩
    exact ⟨d, hd, inRange_of_build hd hr, parts_of_build hr⟩

/-! ## Reading -/

/-- A requirement that is read is written at the start of the text: the forms come from reading, and
building has accepted what they say. -/
theorem read_written {cs rest : List Char} {r : Requirement} (h : read cs = .found r rest) :
    ∃ body, cs = body ++ rest ∧ r.Written body := by
  unfold read at h
  split at h
  · cases h
  · next d left hdraft =>
    split at h
    · next hbuild =>
      cases h
      obtain ⟨-, body, hcs, hbody⟩ := Draft.read?_written hdraft
      -- what is found was built from the form that is read
      exact ⟨body, hcs, written_iff_build.2 ⟨d, hbody, hbuild⟩⟩
    · cases h

/-- A requirement that is written at a break is read whole, perhaps with blanks of the break. -/
theorem read_of_written {body rest : List Char} {r : Requirement} (h : r.Written body)
    (hrest : Draft.AtBreak rest) :
    ∃ left, BlanksTo rest left ∧ read (body ++ rest) = .found r left := by
  obtain ⟨d, hd, hbuild⟩ := written_iff_build.1 h
  obtain ⟨left, hleft, hread⟩ := Draft.read?_of_written hd hrest
  refine ⟨left, hleft, ?_⟩
  unfold read
  simp only [hread, hbuild]

theorem Written.stops_isBlank {body : List Char} {r : Requirement} (h : r.Written body)
    (rest : List Char) : Stops isBlank (body ++ rest) := by
  obtain ⟨d, hd, -⟩ := h
  exact hd.stops_isBlank rest

/-- A key and a comparison by `>` or `<` with an integer outside of 64 bits stand at the start of a
text; the digits of the integer are the longest run. -/
def OutOfRange (cs : List Char) : Prop :=
  ∃ key w₁ sign w₂ v rest n, IsKey key ∧ AllBlank w₁ ∧ (sign = '>' ∨ sign = '<') ∧ AllBlank w₂ ∧
    WritesInt v n ∧ ¬ Number.InInt64 n ∧ Stops Char.isDigit rest ∧
    cs = key ++ w₁ ++ sign :: (w₂ ++ v ++ rest)

/-- A reading is invalid where an integer is out of range, and at the start of its requirement. What
is refused is written, so that its only fault is an integer; then the form can only be a comparison
by `>` or `<`. -/
theorem read_invalid {cs start : List Char} (h : read cs = .invalid start) :
    start = cs ∧ OutOfRange cs := by
  unfold read at h
  split at h
  · cases h
  · next d rest hdraft =>
    split at h
    · cases h
    · next e hbuild =>
      cases h
      refine ⟨rfl, ?_⟩
      -- the form is written, so building refused it for an integer
      obtain ⟨hstop, body, rfl, hbody⟩ := Draft.read?_written hdraft
      obtain ⟨v, hv, -, hnum, hinteger⟩ := build_error_of_written hbody hbuild
      obtain ⟨n, hn⟩ := writesInt_of_written hbody hnum v hv
      have hout : ¬ Number.InInt64 n := fun hin => hinteger ((isInteger_iff hn).2 hin)
      -- only a comparison by `>` or `<` has an integer
      cases hbody with
      | absent => cases hnum
      | present => cases hnum
      | @comparison key w₁ sign w₂ w operator hkey hw₁ hsign hw₂ hoperand =>
        rw [List.mem_singleton] at hv
        rw [hv, String.toList_ofList] at hn
        cases hsign with
        | greaterThan =>
          exact ⟨key, w₁, '>', w₂, w, rest, n, hkey, hw₁, .inl rfl, hw₂, hn, hout, hstop hnum,
            by simp⟩
        | lessThan =>
          exact ⟨key, w₁, '<', w₂, w, rest, n, hkey, hw₁, .inr rfl, hw₂, hn, hout, hstop hnum,
            by simp⟩
        | equals => cases hnum
        | doubleEquals => cases hnum
        | notEquals => cases hnum
      | set _ _ _ hword =>
        cases hword with
        | oneOf => cases hnum
        | noneOf => cases hnum

end LabelQuery.Requirement
