/-!
# Text — words and parts

What stands in a text: a word at its start or anywhere in it, without regard to case, and the parts
between separators.

* `afterWord? word cs` takes a word off the start of a text. The word is given in lower case, and
  ASCII letters of the text match it in either case.
* `holdsAnyCase word text` tells whether a word stands in a text, both in lower case. Lower case is
  Unicode's as far as a search for an ASCII word can tell: the two characters outside ASCII whose
  lower case has an ASCII letter are mapped like the ASCII capitals, and every other one, which cannot
  become ASCII, is left as it is.
* `splitAt sep` cuts a text at every `sep`; it has one part more than there are separators.
-/

namespace LabelQuery.Text

/-! ## A word at the start of a text -/

/-- The text after a word at its start, read without regard to ASCII case; the word is given in lower
case. -/
def afterWord? : List Char → List Char → Option (List Char)
  | [], cs => some cs
  | w :: ws, c :: cs => if c.toLower = w then afterWord? ws cs else none
  | _ :: _, [] => none

/-- The rest, with a start that is the word in lower case, makes up the text. -/
theorem afterWord?_eq_some_iff {word cs rest : List Char} :
    afterWord? word cs = some rest ↔ ∃ start, start.map Char.toLower = word ∧ cs = start ++ rest := by
  fun_induction afterWord? word cs with
  | case1 cs => simp [eq_comm]
  | case2 ws c cs ih =>
    rw [ih]
    constructor
    · rintro ⟨start, rfl, rfl⟩
      exact ⟨c :: start, rfl, rfl⟩
    · rintro ⟨start, hstart, happend⟩
      obtain ⟨d, start, rfl⟩ : ∃ d ds, start = d :: ds := by
        cases start with
        | nil => simp at hstart
        | cons d ds => exact ⟨d, ds, rfl⟩
      simp only [List.map_cons, List.cons.injEq, List.cons_append] at hstart happend
      exact ⟨start, hstart.2, happend.2⟩
  | case3 w ws c cs hne =>
    simp only [reduceCtorEq, false_iff, not_exists, not_and]
    rintro (_ | ⟨d, start⟩) hstart happend
    · simp at hstart
    · simp only [List.map_cons, List.cons.injEq, List.cons_append] at hstart happend
      exact hne (by rw [happend.1]; exact hstart.1)
  | case4 w ws =>
    simp only [reduceCtorEq, false_iff, not_exists, not_and]
    rintro (_ | ⟨d, start⟩) hstart happend
    · simp at hstart
    · simp at happend

/-! ## A word anywhere in a text -/

/-- The lower case of a character, for a search for ASCII letters. Two characters outside ASCII have
an ASCII letter in theirs. -/
def lower (c : Char) : List Char :=
  match c with
  | '\u0130' => ['i', '\u0307']
  | '\u212a' => ['k']
  | c => [c.toLower]

/-- A word stands somewhere in a text. -/
def holds (word : List Char) : List Char → Bool
  | [] => word.isEmpty
  | c :: cs => word.isPrefixOf (c :: cs) || holds word cs

/-- `word`, which is in lower case, stands somewhere in a text that is put in lower case. -/
def holdsAnyCase (word text : List Char) : Bool :=
  holds word (text.flatMap lower)

/-- The search finds what the library calls an infix. -/
theorem holds_iff {word text : List Char} : holds word text ↔ word <:+: text := by
  induction text with
  | nil => simp [holds]
  | cons c cs ih => simp [holds, ih, List.infix_cons_iff]

/-! ## Parts between separators -/

/-- The parts of a text between the separators `sep`; parts may be empty. -/
def splitAt (sep : Char) : List Char → List (List Char)
  | [] => [[]]
  | c :: cs =>
    if c = sep then [] :: splitAt sep cs
    else match splitAt sep cs with
      | [] => [[c]]
      | part :: parts => (c :: part) :: parts

/-- There is always a part, an empty one for an empty text. -/
theorem splitAt_ne_nil (sep : Char) (cs : List Char) : splitAt sep cs ≠ [] := by
  cases cs with
  | nil => simp [splitAt]
  | cons c cs =>
    unfold splitAt
    split
    · simp
    · split <;> simp

end LabelQuery.Text
