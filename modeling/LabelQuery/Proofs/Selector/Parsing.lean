import LabelQuery.Proofs.Selector.Reading
import LabelQuery.Selector.Parser

/-!
# Selector — parsing against the grammar

Reading requirement after requirement follows a derivation of the grammar: every comma that is taken
has a requirement on both sides, and reading stops where no derivation goes on.

* `ReadAlong after cs rs` — requirements between commas, each found where it stands in a longer text.
* `readMore_ok`, `readMore_stops`, `readMore_error` — what a run of the loop has read, why it stopped,
  and where it was refused.
* `readMore_of_writtenList` — requirements between commas are read up to a break.
* `read_ok` — what has been read at the start of a text.
* `read_of_written` — a text that writes a selector is read whole.
* `parse_ok_iff_build` — when a text with the form of a requirement is accepted.
* `parse_eq_ok_iff_written` — a text is accepted exactly if the grammar derives it.
-/

namespace LabelQuery.Selector

open Text

/-! ## Requirements found where they stand -/

/-- `cs` is requirements between commas, perhaps with blanks at its end, and in the text that goes on
with `after` each of them is found where it stands. -/
inductive ReadAlong (after : List Char) : List Char → List Requirement → Prop where
  | last {body w : List Char} {r : Requirement} (hr : r.Written body) (hw : AllBlank w)
      (hread : Requirement.read (body ++ w ++ after) = .found r (w ++ after)) :
      ReadAlong after (body ++ w) [r]
  | more {body w₁ w₂ tail : List Char} {r : Requirement} {rs : List Requirement}
      (hr : r.Written body) (hw₁ : AllBlank w₁) (hw₂ : AllBlank w₂)
      (hread : Requirement.read (body ++ w₁ ++ ',' :: (w₂ ++ tail) ++ after)
        = .found r (w₁ ++ ',' :: (w₂ ++ tail) ++ after))
      (htail : ReadAlong after tail rs) :
      ReadAlong after (body ++ w₁ ++ ',' :: (w₂ ++ tail)) (r :: rs)

/-- A requirement after which reading stops, with the blanks that follow it. -/
theorem exists_readAlong_last {body left : List Char} {r : Requirement} (hr : r.Written body)
    (hread : Requirement.read (body ++ left) = .found r left) :
    ∃ cs, body ++ left = cs ++ skipBlanks left ∧ ReadAlong (skipBlanks left) cs [r] := by
  obtain ⟨w, hw, hleft⟩ := blanksTo_skipBlanks left
  refine ⟨body ++ w, ?_, .last hr hw ?_⟩
  · rw [List.append_assoc, ← hleft]
  · rw [List.append_assoc, ← hleft]
    exact hread

/-- What has been read along is a derivation of the grammar, up to the blanks at its end: the facts
about what follows are dropped, and `after` with them. -/
theorem ReadAlong.writtenList {after cs : List Char} {rs : List Requirement}
    (h : ReadAlong after cs rs) :
    ∃ body w, cs = body ++ w ∧ WrittenList body rs ∧ AllBlank w := by
  induction h with
  | last hr hw _ => exact ⟨_, _, rfl, .one hr, hw⟩
  | more hr hw₁ hw₂ _ _ ih =>
    -- only the blanks after the last requirement are not part of the list
    obtain ⟨tail, w, rfl, htail, hw⟩ := ih
    refine ⟨_, w, ?_, .more hr hw₁ hw₂ htail, hw⟩
    simp only [List.append_assoc, List.cons_append]

/-- Requirements between commas begin with no blank, as the first of them does. -/
theorem WrittenList.stops_isBlank {list : List Char} {rs : List Requirement}
    (h : WrittenList list rs) (rest : List Char) : Stops isBlank (list ++ rest) := by
  cases h with
  | one hr => exact hr.stops_isBlank rest
  | more hr =>
    simp only [List.append_assoc]
    exact hr.stops_isBlank _

theorem WrittenList.ne_nil {list : List Char} {rs : List Requirement} (h : WrittenList list rs) :
    rs ≠ [] := by
  cases h <;> simp

/-! ## The loop -/

/-- A success that was changed comes from a success. It undoes one step of the loop, which puts the
requirement read before the others. -/
theorem ok_of_map {ε α β : Type} {f : α → β} {x : Except ε α} {b : β} (h : x.map f = .ok b) :
    ∃ a, x = .ok a ∧ f a = b := by
  cases x with
  | ok a => exact ⟨a, rfl, Except.ok.inj h⟩
  | error e => cases h

/-- An error is not changed: the loop hands on the error of its later steps. -/
theorem error_of_map {ε α β : Type} {f : α → β} {x : Except ε α} {e : ε} (h : x.map f = .error e) :
    x = .error e := by
  cases x with
  | ok a => cases h
  | error e' => rw [Except.error.inj h]

/-- After a comma the loop does what reading a requirement says: it goes on, gives the comma back,
or is refused. -/
theorem readMore_of_comma {cs tail : List Char} (hcomma : skipBlanks cs = ',' :: tail) :
    readMore cs = match Requirement.read (skipBlanks tail) with
      | .found r rest => (readMore rest).map fun (rs, rest) => (r :: rs, rest)
      | .mismatch => .ok ([], cs)
      | .invalid start => .error start := by
  rw [readMore]
  split
  · next h =>
    rw [hcomma] at h
    cases h
    split
    · next h => rw [h]
    · next h => rw [h]
    · next h => rw [h]
  · next h => exact absurd hcomma (h tail)

/-- At the end of a text the loop stops. Blanks before the end are left to its caller. -/
theorem readMore_of_nil {cs : List Char} (h : skipBlanks cs = []) : readMore cs = .ok ([], cs) := by
  rw [readMore]
  split
  · next hcomma => rw [h] at hcomma; cases hcomma
  · rfl

/-- A requirement that has been read, with all that the loop reads after it. Induction on the loop,
with the requirement read last, which is the one before the next comma, as the invariant. -/
theorem readMore_ok {left rest : List Char} {rs : List Requirement}
    (h : readMore left = .ok (rs, rest)) {body : List Char} {r : Requirement}
    (hr : r.Written body) (hread : Requirement.read (body ++ left) = .found r left) :
    ∃ cs, body ++ left = cs ++ skipBlanks rest ∧ ReadAlong (skipBlanks rest) cs (r :: rs) := by
  -- `body` is the invariant: what was read last, with `left` still to be read
  fun_induction readMore left generalizing rs rest body r with
  | case1 left tail hcomma r' left' hnext ih =>
    -- a comma and a requirement: what that one has read along continues the list
    obtain ⟨⟨rs', rest'⟩, hmore, heq⟩ := ok_of_map h
    cases heq
    obtain ⟨body', happend, hr'⟩ := Requirement.read_written hnext
    rw [happend] at hnext
    obtain ⟨cs, hcs, halong⟩ := ih hmore hr' hnext
    obtain ⟨w₁, hw₁, hleft⟩ := blanksTo_skipBlanks left
    obtain ⟨w₂, hw₂, htail⟩ := blanksTo_skipBlanks tail
    have htext : left = w₁ ++ ',' :: (w₂ ++ cs) ++ skipBlanks rest := by
      rw [hleft, hcomma, htail, happend, hcs]
      simp only [List.append_assoc, List.cons_append]
    refine ⟨body ++ w₁ ++ ',' :: (w₂ ++ cs), ?_, .more hr hw₁ hw₂ ?_ halong⟩
    · rw [htext]
      simp only [List.append_assoc]
    · rw [htext] at hread
      simpa only [List.append_assoc] using hread
  | case2 left tail hcomma hnext =>
    -- a comma that no requirement follows is given back, but the blanks before it are not
    cases h
    exact exists_readAlong_last hr hread
  | case3 => cases h
  | case4 left hcomma =>
    -- no comma stands here, so what was read last is the last requirement
    cases h
    exact exists_readAlong_last hr hread

/-- The loop stops where no comma stands, or a comma that no requirement follows. Induction on the
loop; its last step decides. -/
theorem readMore_stops {left rest : List Char} {rs : List Requirement}
    (h : readMore left = .ok (rs, rest)) {tail : List Char} (hcomma : skipBlanks rest = ',' :: tail) :
    Requirement.read (skipBlanks tail) = .mismatch := by
  fun_induction readMore left generalizing rs with
  | case1 left tail' hcomma' r' left' hnext ih =>
    obtain ⟨⟨rs', rest'⟩, hmore, heq⟩ := ok_of_map h
    cases heq
    exact ih hmore
  | case2 left tail' hcomma' hnext =>
    -- the comma that was given back is the one that stands there
    cases h
    rw [hcomma] at hcomma'
    cases hcomma'
    exact hnext
  | case3 => cases h
  | case4 left hno =>
    cases h
    exact absurd hcomma (hno tail)

/-- Where the loop is refused, requirements that make sense and a comma stand before the one that
makes none. Induction on the loop; each step puts what was read last before the list. -/
theorem readMore_error {left start : List Char} (h : readMore left = .error start)
    {body : List Char} {r : Requirement} (hr : r.Written body) :
    ∃ list w₁ w₂ rs, WrittenList list rs ∧ AllBlank w₁ ∧ AllBlank w₂ ∧
      body ++ left = list ++ w₁ ++ ',' :: (w₂ ++ start) ∧
      Requirement.read start = .invalid start := by
  fun_induction readMore left generalizing body r with
  | case1 left tail hcomma r' left' hnext ih =>
    obtain ⟨body', happend, hr'⟩ := Requirement.read_written hnext
    obtain ⟨list, w₃, w₄, rs, hlist, hw₃, hw₄, hcs, hstart⟩ := ih (error_of_map h) hr'
    obtain ⟨w₁, hw₁, hleft⟩ := blanksTo_skipBlanks left
    obtain ⟨w₂, hw₂, htail⟩ := blanksTo_skipBlanks tail
    refine ⟨_, w₃, w₄, r :: rs, .more hr hw₁ hw₂ hlist, hw₃, hw₄, ?_, hstart⟩
    rw [hleft, hcomma, htail, happend, hcs]
    simp only [List.append_assoc, List.cons_append]
  | case2 => cases h
  | case3 left tail hcomma start' hnext =>
    -- the requirement after this comma is the one that makes no sense
    cases h
    obtain ⟨hstart, -⟩ := Requirement.read_invalid hnext
    obtain ⟨w₁, hw₁, hleft⟩ := blanksTo_skipBlanks left
    obtain ⟨w₂, hw₂, htail⟩ := blanksTo_skipBlanks tail
    refine ⟨body, w₁, w₂, [r], .one hr, hw₁, hw₂, ?_, ?_⟩
    · rw [hleft, hcomma, htail, hstart]
      simp only [List.append_assoc]
    · rw [hstart] at hnext ⊢
      exact hnext
  | case4 => cases h

/-- Requirements between commas are read one after another up to a break, and from there the loop
goes on, perhaps with blanks skipped. Induction on the derivation. What the loop reads after the
break is left open, so this serves at the end of a text and before a further comma alike. -/
theorem readMore_of_writtenList {list rest : List Char} {rs : List Requirement}
    (h : WrittenList list rs) (hrest : Draft.AtBreak rest) :
    ∃ r more left last, rs = r :: more ∧ Requirement.read (list ++ rest) = .found r left ∧
      BlanksTo rest last ∧
      readMore left = (readMore last).map fun (found, rest) => (more ++ found, rest) := by
  induction h with
  | @one cs r hr =>
    obtain ⟨left, hleft, hread⟩ := Requirement.read_of_written hr hrest
    refine ⟨r, [], left, left, rfl, hread, hleft, ?_⟩
    cases readMore left <;> rfl
  | @more cs w₁ w₂ tail r rs hr hw₁ hw₂ htail ih =>
    obtain ⟨r', more, left', last, rfl, hread', hlast, hmore⟩ := ih
    have hcomma : skipBlanks (w₁ ++ ',' :: (w₂ ++ (tail ++ rest))) =
        ',' :: (w₂ ++ (tail ++ rest)) := by
      rw [skipBlanks_append hw₁]
      rfl
    -- what comes after the first requirement is a break, so the reader takes it whole
    obtain ⟨left, hleft, hread⟩ := Requirement.read_of_written hr (.inr ⟨_, hcomma⟩)
    rw [hleft.skipBlanks_eq] at hcomma
    -- the second requirement begins after the blanks behind the comma
    have hnext : skipBlanks (w₂ ++ (tail ++ rest)) = tail ++ rest := by
      rw [skipBlanks_append hw₂, skipBlanks_of_stops (htail.stops_isBlank rest)]
    refine ⟨r, r' :: more, left, last, rfl, ?_, hlast, ?_⟩
    · simpa only [List.append_assoc, List.cons_append] using hread
    · rw [readMore_of_comma hcomma, hnext, hread']
      dsimp only
      rw [hmore]
      cases readMore last <;> rfl

/-! ## Whole texts -/

/-- What has been read at the start of a text: nothing, where no requirement stands, or requirements
that are found where they stand, up to a place where the loop stops. -/
theorem read_ok {cs rest : List Char} {s : Selector} (h : read cs = .ok (s, rest)) :
    Stops isBlank rest ∧ ∃ w, AllBlank w ∧
      ((s = everything ∧ cs = w ++ rest ∧ Requirement.read rest = .mismatch) ∨
        ∃ body, cs = w ++ body ++ rest ∧ ReadAlong rest body s.requirements ∧
          ∀ tail, rest = ',' :: tail → Requirement.read (skipBlanks tail) = .mismatch) := by
  obtain ⟨w, hw, hcs⟩ := blanksTo_skipBlanks cs
  unfold read at h
  split at h
  · next r left hread =>
    obtain ⟨⟨rs, rest'⟩, hmore, heq⟩ := ok_of_map h
    cases heq
    refine ⟨stops_skipBlanks rest', w, hw, .inr ?_⟩
    -- the first requirement starts the loop, so its invariant holds there
    obtain ⟨start, hstart, hr⟩ := Requirement.read_written hread
    rw [hstart] at hread
    obtain ⟨body, hbody, halong⟩ := readMore_ok hmore hr hread
    refine ⟨body, ?_, halong, fun tail htail => readMore_stops hmore htail⟩
    rw [List.append_assoc, ← hbody, ← hstart]
    exact hcs
  · next hread =>
    cases h
    exact ⟨stops_skipBlanks cs, w, hw, .inl ⟨rfl, hcs, hread⟩⟩
  · cases h

/-- Where reading is refused: at a requirement that makes no sense, which is the first one or comes
after a comma and a selector. -/
theorem read_error {cs start : List Char} (h : read cs = .error start) :
    Requirement.read start = .invalid start ∧
      (BlanksTo cs start ∨ ∃ q w s, Written q s ∧ s.requirements ≠ [] ∧ AllBlank w ∧
        cs = q ++ ',' :: (w ++ start)) := by
  obtain ⟨w, hw, hcs⟩ := blanksTo_skipBlanks cs
  unfold read at h
  split at h
  · next r left hread =>
    -- the loop was refused after a first requirement
    obtain ⟨body, hstart, hr⟩ := Requirement.read_written hread
    obtain ⟨list, w₁, w₂, rs, hlist, hw₁, hw₂, happend, hinvalid⟩ :=
      readMore_error (error_of_map h) hr
    refine ⟨hinvalid, .inr ⟨w ++ list ++ w₁, w₂, ⟨rs⟩, .listed hw hlist hw₁, hlist.ne_nil, hw₂, ?_⟩⟩
    rw [hcs, hstart, happend]
    simp only [List.append_assoc]
  · cases h
  · next start' hread =>
    cases h
    obtain ⟨rfl, -⟩ := Requirement.read_invalid hread
    exact ⟨hread, .inl ⟨w, hw, hcs⟩⟩

/-- A text that writes a selector is read whole. The list of requirements is read up to the blanks
at the end, where the loop stops. -/
theorem read_of_written {cs : List Char} {s : Selector} (h : Written cs s) :
    read cs = .ok (s, []) := by
  cases h with
  | nothing hw =>
    -- no requirement stands at the end of a text
    unfold read
    rw [skipBlanks_of_allBlank hw]
    rfl
  | @listed w₁ body w₂ rs hw₁ hbody hw₂ =>
    have hend : skipBlanks w₂ = [] := skipBlanks_of_allBlank hw₂
    obtain ⟨r, more, left, last, rfl, hread, hlast, hmore⟩ :=
      readMore_of_writtenList hbody (.inl hend)
    rw [hlast.skipBlanks_eq] at hend
    have hstart : skipBlanks (w₁ ++ body ++ w₂) = body ++ w₂ := by
      rw [List.append_assoc, skipBlanks_append hw₁, skipBlanks_of_stops (hbody.stops_isBlank w₂)]
    unfold read
    rw [hstart, hread]
    simp only [hmore, readMore_of_nil hend, Except.map, List.append_nil, hend]

/-- A text that is read whole writes the selector that was read: what was read along is the
derivation. -/
theorem written_of_read {cs : List Char} {s : Selector} (h : read cs = .ok (s, [])) :
    Written cs s := by
  obtain ⟨-, w, hw, ⟨rfl, rfl, -⟩ | ⟨body, rfl, halong, -⟩⟩ := read_ok h
  · rw [List.append_nil]
    exact .nothing hw
  · obtain ⟨list, w', rfl, hlist, hw'⟩ := halong.writtenList
    rw [List.append_nil, ← List.append_assoc]
    exact .listed hw hlist hw'

/-- Parsing accepts a text that is read with nothing left. -/
theorem parse_ok_iff_read {text : String} {s : Selector} :
    parse text = .ok s ↔ read text.toList = .ok (s, []) := by
  unfold parse
  split
  · next s' h => simp [h]
  · next hne h =>
    constructor
    · intro heq
      cases heq
    · intro hread
      rw [h] at hread
      cases hread
      exact absurd rfl hne
  · next h => simp [h]

/-- Parsing accepts the texts that the grammar derives, and reads them as it does: soundness and
completeness of reading put together. -/
theorem parse_ok_iff {text : String} {s : Selector} :
    parse text = .ok s ↔ Written text.toList s := by
  rw [parse_ok_iff_read]
  exact ⟨written_of_read, read_of_written⟩

/-- A text that has one of the forms of a requirement is accepted exactly if the requirement
makes sense. If it makes none, it is read all the same, and the refusal is the answer for the
whole text. -/
theorem parse_ok_iff_build {body : List Char} {d : Draft} (h : d.Written body) {s : Selector} :
    parse (String.ofList body) = .ok s ↔
      ∃ r, Requirement.build d.key d.operator d.values = .ok r ∧ s = ⟨[r]⟩ := by
  have hok : ∀ r, Requirement.build d.key d.operator d.values = .ok r →
      parse (String.ofList body) = .ok ⟨[r]⟩ := by
    intro r hr
    have hlist : WrittenList body [r] := .one (Requirement.written_iff_build.2 ⟨d, h, hr⟩)
    rw [parse_ok_iff, String.toList_ofList]
    simpa using Written.listed allBlank_nil hlist allBlank_nil
  constructor
  · intro hparse
    cases hbuild : Requirement.build d.key d.operator d.values with
    | ok r => exact ⟨r, rfl, Except.ok.inj (hparse.symm.trans (hok r hbuild))⟩
    | error e =>
      -- the requirement is read, and refused
      exfalso
      have hstart : skipBlanks body = body := by
        simpa using skipBlanks_of_stops (h.stops_isBlank [])
      obtain ⟨left, -, hdraft⟩ := Draft.read?_of_written h (show Draft.AtBreak [] from .inl rfl)
      have hread : Requirement.read body = .invalid body := by
        rw [List.append_nil] at hdraft
        simp only [Requirement.read, hdraft, hbuild]
      rw [parse_ok_iff_read, String.toList_ofList] at hparse
      simp only [read, hstart, hread] at hparse
      cases hparse
  · rintro ⟨r, hr, rfl⟩
    exact hok r hr

/-- **Parsing accepts exactly the grammar.** A text is accepted with a selector exactly if it has a
derivation that reads so, and no text has derivations with different readings. -/
theorem parse_eq_ok_iff_written (text : String) (s : Selector) :
    (parse text = .ok s ↔ Written text.toList s) ∧
      ∀ s', Written text.toList s → Written text.toList s' → s' = s := by
  refine ⟨parse_ok_iff, fun s' hs hs' => ?_⟩
  -- both readings are what parsing answers
  have h : (.ok s' : Except SelectorError Selector) = .ok s := by
    rw [← parse_ok_iff.2 hs', parse_ok_iff.2 hs]
  exact Except.ok.inj h

end LabelQuery.Selector
