import LabelQuery.Proofs.Selector.Position

/-!
# Selector — texts joined by a comma

A comma between two texts does not change how either is read. The text before it, if it is a selector
that is not empty, is read as it was read alone: each of its requirements ends at a comma just as at
the end of a text. Behind the comma the loop reads what a fresh start would read there, with one
difference: where a fresh start finds no requirement at all, the loop gives the comma back.

* `Stopped cs rest` — reading `cs` stopped before `rest`; `parse_eq_error_iff` says that errors are
  these places.
* `StopsAtOnce text` — no requirement is found at the start of a text.
* `read_append_comma` — reading over a comma, by what a fresh start answers behind it.
* `parse_append_comma` — parsing two texts with a comma between them.
-/

namespace LabelQuery

open Text

/-! ## Sizes tell places apart -/

theorem Text.byteLength_toList (s : String) : byteLength s.toList = s.utf8ByteSize := by
  rw [← utf8ByteSize_ofList, String.ofList_toList]

/-- Only the empty text has no bytes, since every character takes at least one. -/
theorem Text.eq_nil_of_byteLength_eq_zero {cs : List Char} (h : byteLength cs = 0) : cs = [] := by
  cases cs with
  | nil => rfl
  | cons c cs =>
    have hpos := c.utf8Size_pos
    rw [byteLength_cons] at h
    omega

/-- A text is cut in one way by the size of its first part. So the position in an error determines
the place, and with it what is left. -/
theorem Text.append_inj_of_byteLength {xs ys xs' ys' : List Char} (h : xs ++ ys = xs' ++ ys')
    (hsize : byteLength xs = byteLength xs') : xs = xs' ∧ ys = ys' := by
  rcases List.append_eq_append_iff.1 h with ⟨zs, rfl, rfl⟩ | ⟨zs, rfl, rfl⟩
  · rw [byteLength_append] at hsize
    -- what one first part has more than the other takes no bytes
    rw [eq_nil_of_byteLength_eq_zero (by omega : byteLength zs = 0)]
    simp
  · rw [byteLength_append] at hsize
    rw [eq_nil_of_byteLength_eq_zero (by omega : byteLength zs = 0)]
    simp

namespace Selector

/-! ## Where reading stopped -/

/-- Reading a text stopped before `rest`: a requirement that makes no sense begins there, or `rest` is
left over. -/
def Stopped (cs rest : List Char) : Prop :=
  read cs = .error rest ∨ rest ≠ [] ∧ ∃ s, read cs = .ok (s, rest)

/-- Where reading stopped inside a text, the answer is the error at that place, whichever way it
stopped. -/
theorem Stopped.parse_eq_error {text : String} {pre rest : List Char}
    (h : Stopped text.toList rest) (htext : text.toList = pre ++ rest) :
    parse text = .error (.unexpected text (byteLength pre)) := by
  have hposition : positionOf text.toList rest = byteLength pre := by
    rw [htext, positionOf_append]
  unfold parse
  rcases h with h | ⟨hne, s, h⟩
  · rw [h, ← hposition]
  · rw [h]
    split
    · next heq => cases heq; exact absurd rfl hne
    · next heq => cases heq; rw [hposition]
    · next heq => cases heq

/-- An error tells the place before which reading stopped, and every such place is told by an
error. -/
theorem parse_eq_error_iff {text : String} {e : SelectorError} : parse text = .error e ↔
    ∃ pre rest, text.toList = pre ++ rest ∧ e = .unexpected text (byteLength pre) ∧
      Stopped text.toList rest := by
  constructor
  · intro h
    -- the place is known, and with it the error
    suffices hstop : ∃ pre rest, text.toList = pre ++ rest ∧ Stopped text.toList rest by
      obtain ⟨pre, rest, htext, hstop⟩ := hstop
      rw [hstop.parse_eq_error htext] at h
      exact ⟨pre, rest, htext, (Except.error.inj h).symm, hstop⟩
    -- it is where the loop left off, or where it was refused
    unfold parse at h
    split at h
    · cases h
    · next s rest hne hread =>
      obtain ⟨pre, htext, -⟩ := leftOver_of_read hread
      exact ⟨pre, rest, htext, .inr ⟨hne, s, hread⟩⟩
    · next start hread =>
      obtain ⟨pre, htext, -⟩ := refused_of_read hread
      exact ⟨pre, start, htext, .inl hread⟩
  · rintro ⟨pre, rest, htext, rfl, hstop⟩
    exact hstop.parse_eq_error htext

/-- No requirement is found at the start of a text: the text is blank, or it is refused after blanks
alone, at a place where no requirement begins. -/
def StopsAtOnce (text : String) : Prop :=
  AllBlank text.toList ∨ ∃ before after, text = before ++ after ∧ AllBlank before.toList ∧
    parse text = .error (.unexpected text before.utf8ByteSize) ∧
    Requirement.read after.toList = .mismatch

theorem read_of_mismatch {cs : List Char} (h : Requirement.read (skipBlanks cs) = .mismatch) :
    read cs = .ok (everything, skipBlanks cs) := by
  unfold read
  rw [h]

/-- A text that is blank or has nothing to read at its start is read as the empty selector. -/
theorem read_of_stopsAtOnce {text : String} (h : StopsAtOnce text) :
    ∃ rest, read text.toList = .ok (everything, rest) := by
  rcases h with hblank | ⟨before, after, rfl, hblank, hparse, hread⟩
  · exact ⟨[], read_of_written (.nothing hblank)⟩
  · -- the error is at `after`, so that is where reading stopped
    obtain ⟨pre, rest, htext, he, hstop⟩ := parse_eq_error_iff.1 hparse
    have hsize : byteLength before.toList = byteLength pre := by
      rw [byteLength_toList]
      exact (SelectorError.unexpected.inj he).2
    rw [String.toList_append] at htext
    obtain ⟨-, rfl⟩ := append_inj_of_byteLength htext hsize
    rcases hstop with hstop | ⟨-, s, hstop⟩
    · obtain ⟨hinvalid, -⟩ := read_error hstop
      rw [hread] at hinvalid
      cases hinvalid
    · have hskip : skipBlanks (before ++ after).toList = after.toList := by
        rw [String.toList_append, skipBlanks_append hblank, skipBlanks_of_stops (read_ok hstop).1]
      exact ⟨_, read_of_mismatch (hskip.symm ▸ hread)⟩

/-- A text that is read as the empty selector has no requirement at its start: reading along never
gives an empty selector. -/
theorem stopsAtOnce_of_read {text : String} {rest : List Char}
    (h : read text.toList = .ok (everything, rest)) : StopsAtOnce text := by
  obtain ⟨-, w, hw, ⟨-, htext, hread⟩ | ⟨body, -, halong, -⟩⟩ := read_ok h
  · by_cases hne : rest = []
    · rw [hne, List.append_nil] at htext
      exact .inl (htext ▸ hw)
    · -- the text is refused where it is left over
      obtain ⟨hsplit, -, -⟩ := exists_split htext hne
      have hstop : Stopped text.toList rest := .inr ⟨hne, everything, h⟩
      refine .inr ⟨_, _, hsplit, by rwa [String.toList_ofList], ?_, by rwa [String.toList_ofList]⟩
      rw [utf8ByteSize_ofList]
      exact hstop.parse_eq_error htext
  · -- what has been read along is not empty
    cases halong

/-- Only blank texts write the empty selector. -/
theorem Written.allBlank {cs : List Char} {s : Selector} (h : Written cs s)
    (hs : s.requirements = []) : AllBlank cs := by
  cases h with
  | nothing hw => exact hw
  | listed _ hbody _ => exact absurd hs hbody.ne_nil

/-! ## Reading over a comma -/

/-- What reading answers for a selector `s`, a comma and a text `b`, by the answer for `b` alone. -/
def afterComma (s : Selector) (b : List Char) :
    Except (List Char) (Selector × List Char) → Except (List Char) (Selector × List Char)
  | .ok (⟨[]⟩, _) => .ok (s, ',' :: b)
  | .ok (⟨r :: rs⟩, rest) => .ok (⟨s.requirements ++ r :: rs⟩, rest)
  | .error start => .error start

/-- **A selector is read before a comma as it is read alone, and the loop goes on behind the comma
as a fresh start would.** -/
theorem read_append_comma {a : List Char} {s : Selector} (ha : Written a s)
    (hs : s.requirements ≠ []) (b : List Char) : read (a ++ ',' :: b) = afterComma s b (read b) := by
  cases ha with
  | nothing => exact absurd rfl hs
  | @listed w₁ body w₂ rs hw₁ hbody hw₂ =>
    have hcomma : skipBlanks (w₂ ++ ',' :: b) = ',' :: b := by
      rw [skipBlanks_append hw₂]
      rfl
    -- the comma is a break, so the loop comes to it with all requirements of `a`
    obtain ⟨r, more, left, last, rfl, hread, hlast, hmore⟩ :=
      readMore_of_writtenList hbody (.inr ⟨b, hcomma⟩)
    rw [hlast.skipBlanks_eq] at hcomma
    have hstart : skipBlanks (w₁ ++ body ++ w₂ ++ ',' :: b) = body ++ (w₂ ++ ',' :: b) := by
      simp only [List.append_assoc]
      rw [skipBlanks_append hw₁, skipBlanks_of_stops (hbody.stops_isBlank _)]
    unfold read
    rw [hstart, hread]
    dsimp only
    rw [hmore, readMore_of_comma hcomma]
    -- behind the comma the loop reads what a fresh start reads first
    cases Requirement.read (skipBlanks b) with
    | found r' rest =>
      dsimp only
      cases readMore rest <;> rfl
    | mismatch => simp [Except.map, afterComma, everything, hcomma]
    | invalid start => rfl

/-- Reading stops at the same place behind a comma, unless nothing at all was found there. -/
theorem Stopped.append_comma {a b : List Char} {s : Selector} (ha : Written a s)
    (hs : s.requirements ≠ []) {rest : List Char} (h : Stopped b rest)
    (hfirst : ∀ rest, read b ≠ .ok (everything, rest)) : Stopped (a ++ ',' :: b) rest := by
  unfold Stopped
  rw [read_append_comma ha hs]
  rcases h with h | ⟨hne, ⟨rs⟩, h⟩
  · rw [h]
    exact .inl rfl
  · -- a requirement was found, so the loop goes over the comma
    cases rs with
    | nil => exact absurd h (hfirst rest)
    | cons r rs =>
      rw [h]
      exact .inr ⟨hne, _, rfl⟩

/-- **Parsing goes over commas.** Two selectors with a comma between them are one selector, and an
error in the second text is the same error at its place in the whole. Where no requirement is found at
the start of the second text, the comma is left over. -/
theorem parse_append_comma {a : String} {s : Selector} (ha : parse a = .ok s)
    (hs : s.requirements ≠ []) (b : String) :
    (∀ s', parse b = .ok s' → s'.requirements ≠ [] →
      parse (a ++ "," ++ b) = .ok ⟨s.requirements ++ s'.requirements⟩) ∧
    (StopsAtOnce b →
      parse (a ++ "," ++ b) = .error (.unexpected (a ++ "," ++ b) a.utf8ByteSize)) ∧
    (∀ e, parse b = .error e → ¬ StopsAtOnce b → ∃ p, e = .unexpected b p ∧
      parse (a ++ "," ++ b) = .error (.unexpected (a ++ "," ++ b) (a.utf8ByteSize + 1 + p))) ∧
    (∀ s', parse b = .ok s' → s'.requirements = [] → AllBlank b.toList) := by
  have hwritten : Written a.toList s := parse_ok_iff.1 ha
  have htext : (a ++ "," ++ b).toList = a.toList ++ ',' :: b.toList := by simp
  refine ⟨?_, ?_, ?_, ?_⟩
  · rintro ⟨rs⟩ hb hne
    rw [parse_ok_iff_read] at hb ⊢
    rw [htext, read_append_comma hwritten hs, hb]
    cases rs with
    | nil => exact absurd rfl hne
    | cons r rs => rfl
  · intro honce
    -- nothing is found behind the comma, so it is given back with all that follows
    obtain ⟨rest, hread⟩ := read_of_stopsAtOnce honce
    have hstop : Stopped (a ++ "," ++ b).toList (',' :: b.toList) := by
      refine .inr ⟨List.cons_ne_nil _ _, s, ?_⟩
      rw [htext, read_append_comma hwritten hs, hread]
      rfl
    rw [hstop.parse_eq_error htext, byteLength_toList]
  · intro e hb honce
    obtain ⟨pre, rest, hpre, rfl, hstop⟩ := parse_eq_error_iff.1 hb
    -- reading stops before the same rest, which begins later by the first text and the comma
    have hjoined : Stopped (a ++ "," ++ b).toList rest := by
      rw [htext]
      exact hstop.append_comma hwritten hs fun rest h => honce (stopsAtOnce_of_read h)
    refine ⟨byteLength pre, rfl, ?_⟩
    have hplace : (a ++ "," ++ b).toList = a.toList ++ ',' :: pre ++ rest := by
      rw [htext, hpre]
      simp
    have hsize : byteLength (a.toList ++ ',' :: pre) = a.utf8ByteSize + 1 + byteLength pre := by
      rw [byteLength_append, byteLength_toList, byteLength_cons, show (',').utf8Size = 1 from rfl]
      omega
    rw [hjoined.parse_eq_error hplace, hsize]
  · intro s' hb hempty
    exact (parse_ok_iff.1 hb).allBlank hempty

/-- An empty value before the comma, and behind it a requirement and what cannot follow one. -/
theorem parse_append_comma_after_empty_value :
    (∃ s, parse "env= " = .ok s ∧ s.requirements ≠ []) ∧
      parse "tier >2 é" = .error (.unexpected "tier >2 é" 8) ∧
      parse ("env= " ++ "," ++ "tier >2 é") =
        .error (.unexpected ("env= " ++ "," ++ "tier >2 é") (5 + 1 + 8)) := by
  let r : Requirement := ⟨"env", .equals, [""], by decide, by decide, by decide, by decide⟩
  let r' : Requirement :=
    ⟨"tier", .greaterThan, ["2"], by decide, by decide, by decide, by decide⟩
  have ha : parse "env= " = .ok ⟨[r]⟩ := by decide +kernel
  have hb : parse "tier >2 é" = .error (.unexpected "tier >2 é" 8) := by decide +kernel
  have honce : ¬ StopsAtOnce "tier >2 é" := by
    intro h
    have hread : read "tier >2 é".toList = .ok (⟨[r']⟩, ['é']) := by decide +kernel
    obtain ⟨rest, heverything⟩ := read_of_stopsAtOnce h
    rw [hread] at heverything
    cases heverything
  obtain ⟨-, -, herror, -⟩ := parse_append_comma ha (List.cons_ne_nil r []) "tier >2 é"
  obtain ⟨p, hp, hjoined⟩ := herror _ hb honce
  rw [← (SelectorError.unexpected.inj hp).2] at hjoined
  exact ⟨⟨_, ha, List.cons_ne_nil r []⟩, hb, hjoined⟩

end Selector

end LabelQuery
