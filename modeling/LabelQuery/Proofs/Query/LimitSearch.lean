import LabelQuery.Proofs.Query.NormalForm
import Mathlib.Data.List.Forall2

/-!
# Query — the search for a limit reads the base as it is written

A limit is searched for in the base in lower case. There characters may have changed their number, may
depend on their neighbours, and some outside ASCII have become ASCII letters. None of this shows: a
limit is found exactly where the base itself spells one in ASCII letters.

* `SpellsLimit` — seven characters of a text in a row spell a limit.
* `containsLimit_iff_spellsLimit` — they are those that have the lower case of a limit.
* `Query.hasLimit_ofBase_iff` — a base is limited exactly if it spells a limit, whatever the
  characters outside ASCII become in lower case.
-/

namespace LabelQuery

/-- The characters that spell a limit: a blank, the letters in either case, and a blank. -/
def limitLetters : List (List Char) :=
  [[' '], ['l', 'L'], ['i', 'I'], ['m', 'M'], ['i', 'I'], ['t', 'T'], [' ']]

/-- Somewhere in a text consecutive characters spell a limit. -/
def SpellsLimit (base : String) : Prop :=
  ∃ before found after, base.toList = before ++ found ++ after ∧
    List.Forall₂ (· ∈ ·) found limitLetters

namespace Text

/-- Two characters have a small letter for their lower case: the letter itself and its capital,
whose code point is 32 less. -/
theorem toLower_eq_iff_of_letter {w : Char} (hlower : w.toLower = w)
    (hupper : (Char.ofNat (w.toNat - 32)).toLower = w) (c : Char) :
    c.toLower = w ↔ c ∈ [w, Char.ofNat (w.toNat - 32)] := by
  simp only [List.mem_cons, List.not_mem_nil, or_false]
  constructor
  · exact eq_or_eq_of_toLower
  · intro h
    rcases h with h | h
    · rw [h, hlower]
    · rw [h, hupper]

/-- A blank has one case. -/
theorem toLower_eq_blank_iff (c : Char) : c.toLower = ' ' ↔ c ∈ [' '] := by
  rw [List.mem_singleton]
  constructor
  · intro h
    rcases eq_or_eq_of_toLower h with hc | hc
    · exact hc
    · -- the code point that is 32 less is its own lower case
      rw [hc] at h
      exact absurd h (by decide)
  · intro h
    rw [h]
    rfl

/-- Characters with a given lower case, one by one. Induction on the word, each letter of which
comes with the list of its cases. -/
theorem map_toLower_eq_iff {word : List Char} {letters : List (List Char)}
    (h : List.Forall₂ (fun w cases => ∀ c : Char, c.toLower = w ↔ c ∈ cases) word letters)
    (found : List Char) :
    found.map Char.toLower = word ↔ List.Forall₂ (· ∈ ·) found letters := by
  induction h generalizing found with
  | nil => rw [List.map_eq_nil_iff, List.forall₂_nil_right_iff]
  | cons hletter _ ih =>
    cases found with
    | nil => simp
    | cons c found => rw [List.map_cons, List.cons.injEq, List.forall₂_cons, hletter, ih]

end Text

/-- The texts with the lower case of a limit are those that spell one. The letters of the word are
checked together, and the blanks on their own. -/
theorem map_toLower_eq_limit_iff (found : List Char) :
    found.map Char.toLower = " limit ".toList ↔ List.Forall₂ (· ∈ ·) found limitLetters := by
  apply Text.map_toLower_eq_iff
  have hletter : ∀ w ∈ "limt".toList, ∀ c : Char,
      c.toLower = w ↔ c ∈ [w, Char.ofNat (w.toNat - 32)] := by
    intro w hw
    apply Text.toLower_eq_iff_of_letter
    · exact of_decide_eq_true (List.all_eq_true.1
        (show "limt".toList.all (fun w => decide (w.toLower = w)) from rfl) w hw)
    · exact of_decide_eq_true (List.all_eq_true.1
        (show "limt".toList.all fun w => decide ((Char.ofNat (w.toNat - 32)).toLower = w)
          from rfl) w hw)
  -- the word, character by character
  refine .cons Text.toLower_eq_blank_iff (.cons (hletter 'l' (by decide)) ?_)
  refine .cons (hletter 'i' (by decide)) (.cons (hletter 'm' (by decide)) ?_)
  refine .cons (hletter 'i' (by decide)) (.cons (hletter 't' (by decide)) ?_)
  exact .cons Text.toLower_eq_blank_iff .nil

/-- A text contains a limit in some case exactly if it spells one: the part that is found and the
part that is spelled are the same. -/
theorem containsLimit_iff_spellsLimit {base : String} : ContainsLimit base ↔ SpellsLimit base := by
  constructor
  · rintro ⟨found, ⟨before, after, happend⟩, hfound⟩
    exact ⟨before, found, after, happend.symm, (map_toLower_eq_limit_iff found).1 hfound⟩
  · rintro ⟨before, found, after, happend, hfound⟩
    exact ⟨found, ⟨before, after, happend.symm⟩, (map_toLower_eq_limit_iff found).2 hfound⟩

namespace Query

/-- A base in lower case holds a limit exactly if it contained one. -/
theorem holds_limitWord_iff {base : String} {lowered : List Char}
    (h : Text.Lowered base.toList lowered) : Text.holds limitWord lowered ↔ ContainsLimit base := by
  rw [Text.holds_iff]
  exact Text.infix_lowered_iff (by decide) (List.all_eq_true.1 rfl) (by decide) h

/-- **The search for a limit reads the base as it is written.** A new query is limited exactly if
its base spells a limit in ASCII letters of either case. Whatever text the base becomes in lower
case, with characters outside ASCII that depend on their neighbours or become several, a search of
that text comes to the same answer. -/
theorem hasLimit_ofBase_iff (base : String) :
    ((ofBase base).hasLimit ↔ SpellsLimit base) ∧
      ∀ lowered, Text.Lowered base.toList lowered →
        (Text.holds limitWord lowered ↔ SpellsLimit base) := by
  constructor
  · -- a new query has no mark
    rw [hasLimit_iff, ← containsLimit_iff_spellsLimit]
    exact or_iff_right Bool.false_ne_true
  · intro lowered h
    rw [holds_limitWord_iff h, containsLimit_iff_spellsLimit]

/-- A capital sigma at the end of a word has a lower case of its own. -/
theorem spellsLimit_after_final_sigma :
    Text.Lowered "\u0391\u03a3 LiMIT 1".toList "\u03b1\u03c2 limit 1".toList ∧
      SpellsLimit "\u0391\u03a3 LiMIT 1" := by
  have halpha : Text.LowersTo '\u0391' ['\u03b1'] :=
    .other (by decide) (by decide) (by decide) (by decide) (List.forall_mem_singleton.2 (by decide))
  have hsigma : Text.LowersTo '\u03a3' ['\u03c2'] :=
    .other (by decide) (by decide) (by decide) (by decide) (List.forall_mem_singleton.2 (by decide))
  -- only the first two characters are outside ASCII
  have hlowered : Text.Lowered "\u0391\u03a3 LiMIT 1".toList "\u03b1\u03c2 limit 1".toList :=
    .cons halpha (.cons hsigma (Text.lowered_flatMap_lower " LiMIT 1".toList))
  exact ⟨hlowered, ((hasLimit_ofBase_iff _).2 _ hlowered).1 (by decide)⟩

end Query

end LabelQuery
