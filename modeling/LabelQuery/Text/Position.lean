/-!
# Text — positions and rests

A reader holds the part of the text that it has not read. A position in a text counts the bytes of
its UTF-8 form, so it is what the whole text has more than that part.

* `positionOf` — the position at which the rest of a text begins.
* `takeBytes n` — the characters that lie within the first `n` bytes of a text.
* `Rest cs` — what a reader may leave of `cs`. A reader that calls itself on what another one left has
  to know that the rest is not longer than the text, so such a reader answers with a rest that
  carries the proof.
-/

namespace LabelQuery.Text

/-! ## Positions -/

def byteLength : List Char → Nat
  | [] => 0
  | c :: cs => c.utf8Size + byteLength cs

@[simp] theorem byteLength_nil : byteLength [] = 0 := rfl

theorem byteLength_cons (c : Char) (cs : List Char) :
    byteLength (c :: cs) = c.utf8Size + byteLength cs := rfl

/-- The position in `text` at which `rest` begins, for a `rest` that ends `text`. -/
def positionOf (text rest : List Char) : Nat :=
  byteLength text - byteLength rest

theorem byteLength_append (xs ys : List Char) :
    byteLength (xs ++ ys) = byteLength xs + byteLength ys := by
  induction xs with
  | nil => simp
  | cons c cs ih =>
    rw [List.cons_append, byteLength_cons, byteLength_cons, ih]
    omega

/-- The position of the rest is the size of what stands before it. -/
theorem positionOf_append (xs ys : List Char) : positionOf (xs ++ ys) ys = byteLength xs := by
  simp [positionOf, byteLength_append]

/-- The characters of a text that end within its first `n` bytes. -/
def takeBytes : Nat → List Char → List Char
  | _, [] => []
  | n, c :: cs => if c.utf8Size ≤ n then c :: takeBytes (n - c.utf8Size) cs else []

/-! ## Rests -/

/-- What may be left of a text after reading: no more than there was. -/
abbrev Rest (cs : List Char) : Type :=
  { rest : List Char // rest.length ≤ cs.length }

/-- What follows the first character of a rest is less than the text. -/
theorem Rest.length_lt {cs mid : List Char} {c : Char} (rest : Rest cs) (h : rest.1 = c :: mid) :
    mid.length < cs.length := by
  have hrest := rest.2
  rw [h, List.length_cons] at hrest
  omega

end LabelQuery.Text
