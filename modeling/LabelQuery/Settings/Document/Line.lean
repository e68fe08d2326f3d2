import LabelQuery.Settings.Quoted

/-!
# Settings — lines of a document

Spaces and tabs separate words within a line. A line ends with a line feed, which a carriage return
may precede, or with the document.

* `lineBreak?` — a line break at the start of a text.
* `lineEnd?` — the end of a line, with the comment before it.
* `skipLines` — what follows blank lines and comments.
-/

namespace LabelQuery.Settings.Document

/-- A character that separates words within a line. -/
def isGap (c : Char) : Bool :=
  c == ' ' || c == '\t'

def skipGap (cs : List Char) : List Char :=
  cs.dropWhile isGap

/-- A text without the comment at its start, if it starts with one. -/
def skipComment : List Char → List Char
  | '#' :: cs => cs.dropWhile (!isControl ·)
  | cs => cs

def lineBreak? : List Char → Option (List Char)
  | '\n' :: rest => some rest
  | '\r' :: '\n' :: rest => some rest
  | _ => none

/-- The text after the end of a line, before which only a comment stands. -/
def lineEnd? (cs : List Char) : Option (List Char) :=
  match skipComment (skipGap cs) with
  | [] => some []
  | rest => lineBreak? rest

theorem skipGap_length_le (cs : List Char) : (skipGap cs).length ≤ cs.length :=
  (List.dropWhile_sublist _).length_le

theorem skipComment_length_le (cs : List Char) : (skipComment cs).length ≤ cs.length := by
  unfold skipComment
  split
  · next cs =>
    have := (List.dropWhile_sublist (l := cs) (!isControl ·)).length_le
    simp only [List.length_cons]
    omega
  · exact Nat.le_refl _

theorem lineBreak?_length_lt {cs rest : List Char} (h : lineBreak? cs = some rest) :
    rest.length < cs.length := by
  unfold lineBreak? at h
  split at h <;> cases h <;> simp only [List.length_cons] <;> omega

/-- The end of a line is there to be read, unless the text is at its end. -/
theorem lineEnd?_length_lt {cs rest : List Char} (h : lineEnd? cs = some rest) (hne : cs ≠ []) :
    rest.length < cs.length := by
  have h₁ := skipGap_length_le cs
  have h₂ := skipComment_length_le (skipGap cs)
  unfold lineEnd? at h
  split at h
  · cases h
    exact List.length_pos_iff.2 hne
  · have := lineBreak?_length_lt h
    omega

/-- The end of a line is no longer than the text. -/
theorem lineEnd?_length_le {cs rest : List Char} (h : lineEnd? cs = some rest) :
    rest.length ≤ cs.length := by
  by_cases hne : cs = []
  · subst hne
    cases h
    exact Nat.le_refl _
  · exact Nat.le_of_lt (lineEnd?_length_lt h hne)

/-- A text without the blank lines, gaps and comments at its start. -/
def skipLines (cs : List Char) : List Char :=
  if _ : cs = [] then []
  else
    match _ : lineEnd? cs with
    | some rest => skipLines rest
    | none => skipGap cs
termination_by cs.length
decreasing_by exact lineEnd?_length_lt ‹lineEnd? cs = some rest› ‹¬cs = []›

theorem skipLines_length_le (cs : List Char) : (skipLines cs).length ≤ cs.length := by
  fun_induction skipLines cs with
  | case1 => simp
  | case2 cs hne rest h ih =>
    have := lineEnd?_length_lt h hne
    omega
  | case3 cs => exact skipGap_length_le cs

end LabelQuery.Settings.Document
