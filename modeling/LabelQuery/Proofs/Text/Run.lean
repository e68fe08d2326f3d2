import LabelQuery.Text.Blank

/-!
# Text — runs of characters

A reader that takes the longest run of some characters takes a given word whole when every character
of the word belongs to the run and the text after the word cannot go on with it.

* `Stops p cs` — no `p`-character stands at the start of `cs`.
* `append_inj_of_stops` — a run and what follows it can be told apart in only one way.
* `AllBlank`, `BlanksTo` — blanks, and the step over blanks from one place of a text to a later one.
-/

namespace LabelQuery.Text

/-! ## Where a run ends -/

/-- No `p`-character stands at the start of a text. -/
def Stops (p : Char → Bool) (cs : List Char) : Prop :=
  ∀ c ∈ cs.head?, p c = false

@[simp] theorem stops_nil (p : Char → Bool) : Stops p [] := by
  simp [Stops]

@[simp] theorem stops_cons (p : Char → Bool) (c : Char) (cs : List Char) :
    Stops p (c :: cs) ↔ p c = false := by
  simp [Stops]

/-- A run of `p`-characters that stops at once is empty: the reader takes nothing. -/
theorem takeWhile_of_stops {p : Char → Bool} {cs : List Char} (h : Stops p cs) :
    cs.takeWhile p = [] := by
  cases cs with
  | nil => rfl
  | cons c cs => rw [List.takeWhile_cons, (stops_cons p c cs).1 h]; rfl

/-- A run of `p`-characters that stops at once leaves the whole text over. -/
theorem dropWhile_of_stops {p : Char → Bool} {cs : List Char} (h : Stops p cs) :
    cs.dropWhile p = cs := by
  cases cs with
  | nil => rfl
  | cons c cs => rw [List.dropWhile_cons, (stops_cons p c cs).1 h]; rfl

/-- What the longest run leaves over cannot go on with it. Every reader that takes a run answers
with such a rest, so this is the boundary condition that the lemmas below ask for. -/
theorem stops_dropWhile (p : Char → Bool) (cs : List Char) : Stops p (cs.dropWhile p) := by
  intro c hc
  have h := List.head?_dropWhile_not p cs
  rw [Option.mem_def.1 hc] at h
  simpa using h

/-- Characters that are no `p`-characters come before a text that `p` stops at. If there are none of
them, the text itself decides. -/
theorem Stops.append {p : Char → Bool} {xs ys : List Char} (hxs : ∀ c ∈ xs, p c = false)
    (hys : Stops p ys) : Stops p (xs ++ ys) := by
  cases xs with
  | nil => exact hys
  | cons c cs => exact (stops_cons p c _).2 (hxs c List.mem_cons_self)

/-- A word of `p`-characters is taken whole, if the text after it cannot go on with the run. -/
theorem takeWhile_append {p : Char → Bool} {word rest : List Char} (hword : ∀ c ∈ word, p c)
    (hrest : Stops p rest) : (word ++ rest).takeWhile p = word := by
  rw [List.takeWhile_append_of_pos hword, takeWhile_of_stops hrest, List.append_nil]

/-- The other half of `takeWhile_append`: what is left after the word is the text after it. -/
theorem dropWhile_append {p : Char → Bool} {word rest : List Char} (hword : ∀ c ∈ word, p c)
    (hrest : Stops p rest) : (word ++ rest).dropWhile p = rest := by
  rw [List.dropWhile_append_of_pos hword, dropWhile_of_stops hrest]

/-- A word that is not empty keeps from starting a run whose characters it does not have. The first
character of the word decides, whatever follows the word. -/
theorem stops_word_append {p q : Char → Bool} {word : List Char} (hne : word ≠ [])
    (hword : ∀ c ∈ word, q c) (hpq : ∀ c, p c → q c = false) (rest : List Char) :
    Stops p (word ++ rest) := by
  cases word with
  | nil => exact absurd rfl hne
  | cons c cs =>
    rw [List.cons_append, stops_cons, ← Bool.not_eq_true]
    intro hp
    have hq : q c := hword c List.mem_cons_self
    rw [hpq c hp] at hq
    exact absurd hq (by decide)

/-- Two ways to split a text into a run and what cannot go on with it are one. Both runs are what
`takeWhile` takes from the text, so they are equal, and then so are the rests. -/
theorem append_inj_of_stops {p : Char → Bool} {xs ys us vs : List Char} (hxs : ∀ c ∈ xs, p c)
    (hys : ∀ c ∈ ys, p c) (hus : Stops p us) (hvs : Stops p vs) (h : xs ++ us = ys ++ vs) :
    xs = ys ∧ us = vs := by
  -- both runs are the longest one of the text
  have hx : xs = ys := by
    rw [← takeWhile_append hxs hus, h, takeWhile_append hys hvs]
  exact ⟨hx, List.append_cancel_left (by rwa [hx] at h)⟩

/-! ## Blanks -/

/-- All characters are blanks. -/
def AllBlank (w : List Char) : Prop :=
  ∀ c ∈ w, isBlank c

theorem allBlank_nil : AllBlank [] := by
  simp [AllBlank]

theorem allBlank_blanks (cs : List Char) : AllBlank (blanks cs).1 := fun _ hc =>
  (List.all_eq_true.1 (List.all_takeWhile (p := isBlank) (l := cs))) _ hc

theorem stops_skipBlanks (cs : List Char) : Stops isBlank (skipBlanks cs) :=
  stops_dropWhile isBlank cs

/-- Blanks in front of a text make no difference to a reader that skips them. -/
theorem skipBlanks_append {w : List Char} (hw : AllBlank w) (cs : List Char) :
    skipBlanks (w ++ cs) = skipBlanks cs :=
  List.dropWhile_append_of_pos hw

theorem skipBlanks_of_stops {cs : List Char} (h : Stops isBlank cs) : skipBlanks cs = cs :=
  dropWhile_of_stops h

theorem skipBlanks_of_allBlank {w : List Char} (hw : AllBlank w) : skipBlanks w = [] := by
  rw [← List.append_nil w, skipBlanks_append hw]
  rfl

/-- If a run does not go on after blanks, and blanks do not belong to it, it does not go on before
them either: the first character is a blank or the one after the blanks. -/
theorem Stops.of_skipBlanks {p : Char → Bool} {cs : List Char}
    (hp : ∀ c, isBlank c → p c = false) (h : Stops p (skipBlanks cs)) : Stops p cs := by
  rw [← blanks_append cs]
  -- the text is its blanks, none of which belongs to the run, and the rest after them
  exact .append (fun c hc => hp c (allBlank_blanks cs c hc)) h

/-- The run of blanks that a requirement needs is made of blanks, is not empty, and stands at the
start of the text. The test of `blanks1?` gives the second part, the split of `blanks` the
others. -/
theorem blanks1?_parts {cs w rest : List Char} (h : blanks1? cs = some (w, rest)) :
    AllBlank w ∧ w ≠ [] ∧ cs = w ++ rest := by
  unfold blanks1? at h
  split at h
  · cases h
  · next hne =>
    -- rewriting turns the facts about the split into facts about `w` and `rest`
    have hw := allBlank_blanks cs
    have happend := blanks_append cs
    rw [Option.some.inj h] at hne hw happend
    exact ⟨hw, hne, happend.symm⟩

/-- Blanks, at least one, are taken whole if no further blank follows them. -/
theorem blanks1?_eq_some {w rest : List Char} (hw : AllBlank w) (hne : w ≠ [])
    (hrest : Stops isBlank rest) : blanks1? (w ++ rest) = some (w, rest) := by
  have hblanks : blanks (w ++ rest) = (w, rest) := by
    rw [blanks, takeWhile_append hw hrest, skipBlanks_append hw, skipBlanks_of_stops hrest]
  rw [blanks1?, hblanks, if_neg hne]

/-- From `cs` one comes to `rest` over blanks. -/
def BlanksTo (cs rest : List Char) : Prop :=
  ∃ w, AllBlank w ∧ cs = w ++ rest

theorem BlanksTo.refl (cs : List Char) : BlanksTo cs cs :=
  ⟨[], allBlank_nil, rfl⟩

theorem blanksTo_skipBlanks (cs : List Char) : BlanksTo cs (skipBlanks cs) :=
  ⟨(blanks cs).1, allBlank_blanks cs, (blanks_append cs).symm⟩

/-- A reader that skips blanks first finds the same at both ends of a step over blanks. -/
theorem BlanksTo.skipBlanks_eq {cs rest : List Char} (h : BlanksTo cs rest) :
    skipBlanks cs = skipBlanks rest := by
  obtain ⟨w, hw, rfl⟩ := h
  exact skipBlanks_append hw rest

end LabelQuery.Text
