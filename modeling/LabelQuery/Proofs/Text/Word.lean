import LabelQuery.Proofs.Text.Run
import LabelQuery.Text.Word

/-!
# Text — words in both cases, and parts

A character and its lower case differ only if the character is an ASCII capital. So a reader that does
not regard case knows the character it met up to two choices.

Parts that do not hold the separator come back when what they were joined to is cut. The text that
they make starts as the first part does and ends as the last one does.

* `isDigit_iff`, `isAlpha_iff` — ASCII digits and letters as ranges of numbers.
* `eq_or_eq_of_toLower` — a character, from its lower case.
* `afterWord?_append` — a word in any case is taken off the start of a text.
* `splitAt_joinWith` — parts, joined and cut.
* `stops_joinWith`, `stops_reverse_joinWith` — the ends of what is joined.
* `trim_of_stops` — a text without white space at its ends stays as it is when it is trimmed.
-/

namespace LabelQuery.Text

/-! ## Letters and digits as ranges of numbers -/

theorem isDigit_iff {c : Char} : c.isDigit ↔ 48 ≤ c.toNat ∧ c.toNat ≤ 57 := by
  simp only [Char.isDigit, ge_iff_le, UInt32.le_iff_toNat_le, Bool.and_eq_true, decide_eq_true_eq]
  rfl

/-- Letters are ASCII: the capitals, and after a gap of six characters the small ones. With numbers
in the place of characters, questions about classes of characters are left to `omega`. -/
theorem isAlpha_iff {c : Char} :
    c.isAlpha ↔ 65 ≤ c.toNat ∧ c.toNat ≤ 90 ∨ 97 ≤ c.toNat ∧ c.toNat ≤ 122 := by
  have halpha : c.isAlpha = (decide ('A'.val ≤ c.val ∧ c.val ≤ 'Z'.val) ||
      (decide ('a'.val ≤ c.val) && decide (c.val ≤ 'z'.val))) := rfl
  simp only [halpha, UInt32.le_iff_toNat_le, Bool.or_eq_true, Bool.and_eq_true, decide_eq_true_eq]
  rfl

/-! ## Letters in both cases -/

/-- The number of a character in lower case: an ASCII capital goes up by 32, and every other
character stays. The sum does not overflow, because capitals are far from the end of the range. -/
theorem toNat_toLower (c : Char) :
    c.toLower.toNat = if 65 ≤ c.toNat ∧ c.toNat ≤ 90 then c.toNat + 32 else c.toNat := by
  have hle : c.val ≥ 'A'.val ∧ c.val ≤ 'Z'.val ↔ 65 ≤ c.toNat ∧ c.toNat ≤ 90 :=
    and_congr UInt32.le_iff_toNat_le UInt32.le_iff_toNat_le
  unfold Char.toLower
  split
  · next h =>
    rw [hle] at h
    have hlt : c.val.toNat ≤ 90 := h.2
    rw [if_pos h]
    -- a capital: 32 is added, within the range of the type
    show (c.val + 32).toNat = c.val.toNat + 32
    rw [UInt32.toNat_add]
    exact Nat.mod_eq_of_lt (by show c.val.toNat + 32 < 4294967296; omega)
  · next h =>
    rw [hle] at h
    rw [if_neg h]

theorem toLower_of_not_isUpper {c : Char} (h : ¬ c.isUpper) : c.toLower = c :=
  dif_neg fun hrange => h (decide_eq_true hrange)

/-- A character is its lower-case form, or the capital of it. A reader that does not regard case
knows by this which characters it has met. -/
theorem eq_or_eq_of_toLower {c d : Char} (h : c.toLower = d) :
    c = d ∨ c = Char.ofNat (d.toNat - 32) := by
  have hnat := toNat_toLower c
  rw [h] at hnat
  split at hnat
  · -- a capital, 32 below its lower case
    right
    rw [hnat, Nat.add_sub_cancel, Char.ofNat_toNat]
  · -- any other character, which is its own lower case
    left
    exact Char.toNat_inj.1 hnat.symm

/-- A word, spelt in any case, is taken off the start of a text. This is the right-to-left half of
`afterWord?_eq_some_iff`. -/
theorem afterWord?_append {word start : List Char} (h : start.map Char.toLower = word)
    (rest : List Char) : afterWord? word (start ++ rest) = some rest :=
  afterWord?_eq_some_iff.2 ⟨start, h, rfl⟩

/-- A word is not found where another character stands first, or none. -/
theorem afterWord?_cons_eq_none {w : Char} {ws cs : List Char}
    (h : ∀ c ∈ cs.head?, c.toLower ≠ w) : afterWord? (w :: ws) cs = none := by
  cases cs with
  | nil => rfl
  | cons c cs => exact if_neg (h c rfl)

/-! ## Cutting and joining -/

/-- The texts in order, with `sep` between each and the next. -/
def joinWith (sep : List Char) : List (List Char) → List Char
  | [] => []
  | [part] => part
  | part :: parts => part ++ sep ++ joinWith sep parts

/-- A text without the separator is the only part of itself. Induction on the text. -/
theorem splitAt_of_not_mem {sep : Char} {part : List Char} (h : sep ∉ part) :
    splitAt sep part = [part] := by
  induction part with
  | nil => rfl
  | cons c cs ih =>
    obtain ⟨hc, hcs⟩ := List.ne_and_not_mem_of_not_mem_cons h
    rw [splitAt, if_neg hc.symm, ih hcs]

/-- A text is cut at the first separator in it: what stands before is the first part. Induction on
what stands before, none of whose characters is the separator. -/
theorem splitAt_append {sep : Char} {part : List Char} (h : sep ∉ part) (rest : List Char) :
    splitAt sep (part ++ sep :: rest) = part :: splitAt sep rest := by
  induction part with
  | nil => exact if_pos rfl
  | cons c cs ih =>
    obtain ⟨hc, hcs⟩ := List.ne_and_not_mem_of_not_mem_cons h
    rw [List.cons_append, splitAt, if_neg hc.symm, ih hcs]

theorem joinWith_cons_cons (sep part next : List Char) (parts : List (List Char)) :
    joinWith sep (part :: next :: parts) = part ++ sep ++ joinWith sep (next :: parts) := rfl

/-- Parts that do not hold the separator are the parts of what is joined. Induction on the parts, of
which the last one is cut by `splitAt_of_not_mem` and every other one by `splitAt_append`. -/
theorem splitAt_joinWith {sep : Char} {parts : List (List Char)} (hne : parts ≠ [])
    (h : ∀ part ∈ parts, sep ∉ part) : splitAt sep (joinWith [sep] parts) = parts := by
  induction parts with
  | nil => exact absurd rfl hne
  | cons part parts ih =>
    obtain ⟨hpart, hparts⟩ := List.forall_mem_cons.1 h
    cases parts with
    | nil => exact splitAt_of_not_mem hpart
    | cons next parts =>
      -- the separator after the first part is where the text is cut
      rw [joinWith_cons_cons, List.append_assoc, List.singleton_append, splitAt_append hpart,
        ih (List.cons_ne_nil _ _) hparts]

/-! ## Ends -/

/-- Whether `p` stops at a text that is not empty does not depend on what follows the text. -/
theorem Stops.append_right {p : Char → Bool} {xs : List Char} (h : Stops p xs) (hne : xs ≠ [])
    (ys : List Char) : Stops p (xs ++ ys) := by
  cases xs with
  | nil => exact absurd rfl hne
  | cons c cs => exact h

/-- Parts of which the first is not empty make a text that is not empty. -/
theorem joinWith_ne_nil {sep part : List Char} (hpart : part ≠ []) (parts : List (List Char)) :
    joinWith sep (part :: parts) ≠ [] := by
  cases parts with
  | nil => exact hpart
  | cons next parts =>
    rw [joinWith_cons_cons, List.append_assoc]
    exact List.append_ne_nil_of_left_ne_nil hpart _

/-- Parts that are joined start as the first part does, which has to have a character. -/
theorem stops_joinWith {p : Char → Bool} {sep : List Char} {parts : List (List Char)}
    (hne : ∀ part ∈ parts, part ≠ []) (h : ∀ part ∈ parts.head?, Stops p part) :
    Stops p (joinWith sep parts) := by
  match parts with
  | [] => exact stops_nil p
  | [part] => exact h part rfl
  | part :: next :: parts =>
    rw [joinWith_cons_cons, List.append_assoc]
    exact (h part rfl).append_right (hne part List.mem_cons_self) _

/-- Parts that are joined end as the last part does. Induction on the parts: in a longer row the end
is that of the row without its first part. -/
theorem stops_reverse_joinWith {p : Char → Bool} {sep : List Char} {parts : List (List Char)}
    (hne : ∀ part ∈ parts, part ≠ []) (h : ∀ part ∈ parts.getLast?, Stops p part.reverse) :
    Stops p (joinWith sep parts).reverse := by
  induction parts with
  | nil => exact stops_nil p
  | cons part parts ih =>
    cases parts with
    | nil => exact h part rfl
    | cons next parts =>
      obtain ⟨-, hparts⟩ := List.forall_mem_cons.1 hne
      rw [joinWith_cons_cons, List.reverse_append]
      -- read from its end, the text starts with the row of the other parts
      refine (ih hparts ?_).append_right ?_ _
      · rwa [List.getLast?_cons_cons] at h
      · exact mt List.reverse_eq_nil_iff.1 (joinWith_ne_nil (hparts next List.mem_cons_self) parts)

theorem trim_of_stops {cs : List Char} (hstart : Stops isSpace cs)
    (hend : Stops isSpace cs.reverse) : trim cs = cs := by
  rw [trim, dropWhile_of_stops hstart, trimEnd, dropWhile_of_stops hend, List.reverse_reverse]

end LabelQuery.Text
