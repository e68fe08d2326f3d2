import LabelQuery.Proofs.Selector.Parsing

/-!
# Selector — where parsing stopped

The position in an error is the place where reading stopped, counted in bytes. Either the text up to
there is a selector and reading could not go on, or a requirement begins there whose integer is out
of range.

Reading looks beyond the place where it stops: it tries a comparison and a set test after a key, and
a requirement after a comma. So it is to be shown that the text up to the place, taken alone, is read
as it was in the whole text. The derivation that goes along with reading (`ReadAlong`) carries this:
it is a derivation of the text up to the place, and the grammar knows nothing of what follows.

* `LeftOver`, `Refused` — the two ways to stop.
* `parse_error_position` — every error is one of the two.
-/

namespace LabelQuery

open Text Label

/-! ## Positions are sizes of strings -/

/-- The size of a string is the number of bytes that its characters take, so positions can be
counted on lists of characters. -/
theorem Text.utf8ByteSize_ofList (cs : List Char) :
    (String.ofList cs).utf8ByteSize = byteLength cs := by
  induction cs with
  | nil => rfl
  | cons c cs ih =>
    rw [String.ofList_cons, String.utf8ByteSize_append, String.utf8ByteSize_singleton, ih,
      byteLength_cons]

/-- The place at which the end `rest` of a text begins cuts the text in two strings. The position
told for `rest` is the size of the first of them, and lies inside the text when `rest` is not
empty. -/
theorem Text.exists_split {text : String} {pre rest : List Char} (h : text.toList = pre ++ rest)
    (hne : rest ≠ []) :
    text = String.ofList pre ++ String.ofList rest ∧
      positionOf text.toList rest = (String.ofList pre).utf8ByteSize ∧
      (String.ofList pre).utf8ByteSize < text.utf8ByteSize := by
  have htext : text = String.ofList pre ++ String.ofList rest := by
    rw [← String.ofList_append, ← h, String.ofList_toList]
  refine ⟨htext, ?_, ?_⟩
  · rw [h, positionOf_append, utf8ByteSize_ofList]
  · -- what is left has at least one byte
    have hsize : (String.ofList rest).utf8ByteSize ≠ 0 := by
      rw [Ne, String.utf8ByteSize_eq_zero_iff]
      intro heq
      exact hne (by simpa using congrArg String.toList heq)
    rw [htext, String.utf8ByteSize_append]
    omega

/-! ## Requirements are not blank -/

theorem Draft.Written.ne_nil {body : List Char} {d : Draft} (h : d.Written body) : body ≠ [] := by
  cases h with
  | absent => exact List.cons_ne_nil _ _
  | present hkey => exact hkey.ne_nil
  | comparison hkey => simp [hkey.ne_nil]
  | set => simp

/-- A text that begins with a requirement is not blank: its first character is no blank. -/
theorem Requirement.Written.not_allBlank {body : List Char} {r : Requirement}
    (h : r.Written body) (w : List Char) : ¬ AllBlank (body ++ w) := by
  intro hblank
  obtain ⟨d, hd, -⟩ := h
  obtain ⟨c, cs, rfl⟩ := List.exists_cons_of_ne_nil hd.ne_nil
  have hstop := hd.stops_isBlank []
  rw [List.append_nil, stops_cons, hblank c (by simp)] at hstop
  cases hstop

namespace Selector

/-- What has been read along is not blank, as it begins with a requirement. -/
theorem ReadAlong.not_allBlank {after body : List Char} {rs : List Requirement}
    (h : ReadAlong after body rs) : ¬ AllBlank body := by
  cases h with
  | last hr => exact hr.not_allBlank _
  | more hr =>
    rw [List.append_assoc]
    exact hr.not_allBlank _

/-! ## The two ways to stop -/

/-- `before` is a selector, and after it reading could not go on. -/
structure LeftOver (before after : String) (s : Selector) : Prop where
  /-- The text up to the place is accepted. -/
  accepted : parse before = .ok s
  /-- Each of its requirements is the one found at its place in the whole text. -/
  found : s = everything ∨ ∃ w body, AllBlank w ∧ before.toList = w ++ body ∧
    ReadAlong after.toList body s.requirements
  /-- Blanks are not left over. -/
  noBlank : Stops isBlank after.toList
  /-- After blanks alone, no requirement begins at the place. -/
  first : AllBlank before.toList → Requirement.read after.toList = .mismatch
  /-- After a requirement, no comma stands at the place, or no requirement follows it. -/
  next : ¬ AllBlank before.toList → ∀ tail, after.toList = ',' :: tail →
    Requirement.read (skipBlanks tail) = .mismatch

/-- A requirement with an integer out of range begins after `before`, which is blank or ends with a
comma after a selector that is not empty. -/
def Refused (before after : String) : Prop :=
  Requirement.OutOfRange after.toList ∧
    (AllBlank before.toList ∨ ∃ q w s, before = q ++ "," ++ String.ofList w ∧ AllBlank w ∧
      parse q = .ok s ∧ s.requirements ≠ [])

/-- Where reading has stopped without a refusal, what it has not read is left over. What was read is
a derivation that says nothing of the rest, so the text up to there is accepted alone. -/
theorem leftOver_of_read {text : String} {s : Selector} {rest : List Char}
    (h : read text.toList = .ok (s, rest)) :
    ∃ pre, text.toList = pre ++ rest ∧ LeftOver (String.ofList pre) (String.ofList rest) s := by
  obtain ⟨hstop, w, hw, ⟨rfl, hcs, hread⟩ | ⟨body, hcs, halong, hnext⟩⟩ := read_ok h
  · -- nothing was read but blanks
    refine ⟨w, hcs, ?_, .inl rfl, ?_, ?_, ?_⟩
    · rw [parse_ok_iff, String.toList_ofList]
      exact .nothing hw
    · rwa [String.toList_ofList]
    · intro _
      rwa [String.toList_ofList]
    · intro hblank
      rw [String.toList_ofList] at hblank
      exact absurd hw hblank
  · -- the derivation of what was read is one of the text up to the place
    refine ⟨w ++ body, hcs, ?_, .inr ⟨w, body, hw, ?_, ?_⟩, ?_, ?_, ?_⟩
    · obtain ⟨list, w', rfl, hlist, hw'⟩ := halong.writtenList
      rw [parse_ok_iff, String.toList_ofList, ← List.append_assoc]
      exact .listed hw hlist hw'
    · rw [String.toList_ofList]
    · rwa [String.toList_ofList]
    · rwa [String.toList_ofList]
    · intro hblank
      rw [String.toList_ofList] at hblank
      -- what was read holds a requirement, so the text before the place is not blank
      exact absurd (fun c hc => hblank c (List.mem_append_right w hc)) halong.not_allBlank
    · intro _ tail htail
      rw [String.toList_ofList] at htail
      exact hnext tail htail

/-- Where reading was refused, a requirement with an integer out of range begins after blanks alone
or after a comma behind a selector. -/
theorem refused_of_read {text : String} {start : List Char} (h : read text.toList = .error start) :
    ∃ pre, text.toList = pre ++ start ∧ Refused (String.ofList pre) (String.ofList start) := by
  obtain ⟨hinvalid, ⟨w, hw, hcs⟩ | ⟨q, w, s, hq, hne, hw, hcs⟩⟩ := read_error h
  · obtain ⟨-, hout⟩ := Requirement.read_invalid hinvalid
    refine ⟨w, hcs, ?_, .inl ?_⟩
    · rwa [String.toList_ofList]
    · rwa [String.toList_ofList]
  · obtain ⟨-, hout⟩ := Requirement.read_invalid hinvalid
    -- the text before the place is the selector, its comma and blanks
    refine ⟨q ++ ',' :: w, ?_, ?_, .inr ⟨String.ofList q, w, s, ?_, hw, ?_, hne⟩⟩
    · rw [hcs]
      simp only [List.append_assoc, List.cons_append]
    · rwa [String.toList_ofList]
    · rw [← String.toList_inj]
      simp
    · rw [parse_ok_iff, String.toList_ofList]
      exact hq

/-- A requirement that is out of range is not the empty text, so the place before it is inside the
text. -/
theorem OutOfRange.ne_nil {cs : List Char} (h : Requirement.OutOfRange cs) : cs ≠ [] := by
  obtain ⟨key, w₁, sign, w₂, v, rest, n, hkey, -, -, -, -, -, -, rfl⟩ := h
  simp [hkey.ne_nil]

/-- **An error tells the byte at which reading stopped.** The place lies inside the text, between two
characters, and reading stopped there in one of the two ways. A requirement that is written is
refused for an integer out of range only. -/
theorem parse_error_position {text : String} {e : SelectorError} (h : parse text = .error e) :
    (∃ before after, text = before ++ after ∧ e = .unexpected text before.utf8ByteSize ∧
      before.utf8ByteSize < text.utf8ByteSize ∧
      ((∃ s, LeftOver before after s) ∨ Refused before after)) ∧
    ∀ cs d rest fault, Draft.read? cs = some (d, rest) →
      Requirement.build d.key d.operator d.values = .error fault →
      ∃ v, fault = .notAnInteger d.operator v := by
  refine ⟨?_, fun cs d rest fault hread hfault => ?_⟩
  · unfold parse at h
    split at h
    · cases h
    · next s rest hne hread =>
      cases h
      -- some text was not read
      obtain ⟨pre, hcs, hleft⟩ := leftOver_of_read hread
      obtain ⟨htext, hposition, hlt⟩ := exists_split hcs hne
      exact ⟨_, _, htext, by rw [hposition], hlt, .inl ⟨s, hleft⟩⟩
    · next start hread =>
      cases h
      -- a requirement was refused where it begins
      obtain ⟨pre, hcs, hrefused⟩ := refused_of_read hread
      have hne : start ≠ [] := by
        have hout := hrefused.1
        rw [String.toList_ofList] at hout
        exact OutOfRange.ne_nil hout
      obtain ⟨htext, hposition, hlt⟩ := exists_split hcs hne
      exact ⟨_, _, htext, by rw [hposition], hlt, .inr hrefused⟩
  · -- what is read has a form of the grammar, which leaves one fault only
    obtain ⟨-, body, -, hbody⟩ := Draft.read?_written hread
    obtain ⟨v, -, hv, -⟩ := Requirement.build_error_of_written hbody hfault
    exact ⟨v, hv⟩

/-- A comma that no requirement follows is left over with what comes after it, here two bytes of one
character. -/
theorem parse_error_position_at_comma :
    parse "tier in (web) ,é" = .error (.unexpected "tier in (web) ,é" 14) ∧
      ∃ before after, "tier in (web) ,é" = before ++ after ∧ 14 = before.utf8ByteSize ∧
        ((∃ s, LeftOver before after s) ∨ Refused before after) := by
  have h : parse "tier in (web) ,é" = .error (.unexpected "tier in (web) ,é" 14) := by decide +kernel
  obtain ⟨⟨before, after, htext, he, -, hstop⟩, -⟩ := parse_error_position h
  exact ⟨h, before, after, htext, (SelectorError.unexpected.inj he).2, hstop⟩

end Selector

end LabelQuery
