import LabelQuery.Proofs.Text.Word
import LabelQuery.Text.Word

/-!
# Text — what a search without regard to case finds

A search puts the text in lower case, which may turn one character into several, and into others by
the context they stand in. A word of ASCII characters that has no `k`, and no `i` at its end, is still
found only where it stands in some ASCII case: no character outside ASCII becomes a part of it.

* `Lowered` — the texts that a text may become in lower case.
* `StandsIn` — a word stands somewhere in a text, in any ASCII case.
* `infix_lowered_iff` — a text in lower case holds such a word exactly if it stood in the text.
* `holdsAnyCase_iff` — so a search finds it exactly there.
* `holdsAnyCase_append_left`, `holdsAnyCase_append_right` — what is found is found in a longer text.
-/

namespace LabelQuery.Text

/-! ## Lower case -/

/-- What a character may become in lower case. An ASCII character becomes its ASCII lower case, two
characters outside ASCII become or begin with an ASCII letter, and every other one becomes one or more
characters outside ASCII, of which nothing else is said. -/
inductive LowersTo : Char → List Char → Prop where
  | ascii {c : Char} (hc : c.toNat < 128) : LowersTo c [c.toLower]
  | dotted : LowersTo '\u0130' ['i', '\u0307']
  | kelvin : LowersTo '\u212a' ['k']
  | other {c : Char} {image : List Char} (hc : 128 ≤ c.toNat) (hdotted : c ≠ '\u0130')
      (hkelvin : c ≠ '\u212a') (hne : image ≠ []) (himage : ∀ d ∈ image, 128 ≤ d.toNat) :
      LowersTo c image

/-- What a text may become in lower case. What a character becomes may depend on where it stands. -/
inductive Lowered : List Char → List Char → Prop where
  | nil : Lowered [] []
  | cons {c : Char} {text image lowered : List Char} (hc : LowersTo c image)
      (h : Lowered text lowered) : Lowered (c :: text) (image ++ lowered)

/-- The ASCII lower case leaves characters outside ASCII alone: no capital is among them. -/
theorem toLower_of_le {c : Char} (hc : 128 ≤ c.toNat) : c.toLower = c := by
  have hnat := toNat_toLower c
  rw [if_neg (by omega)] at hnat
  exact Char.toNat_inj.1 hnat

/-- The lower case of a character that searches are made in is one that the character may have. Two
characters are named in the definition, and the others are told apart by the end of ASCII. -/
theorem lowersTo_lower (c : Char) : LowersTo c (lower c) := by
  unfold lower
  split
  · exact .dotted
  · exact .kelvin
  · next hdotted hkelvin =>
    by_cases hc : c.toNat < 128
    · exact .ascii hc
    · have hle : 128 ≤ c.toNat := by omega
      rw [toLower_of_le hle]
      exact .other hle hdotted hkelvin (List.cons_ne_nil c []) (by simpa using hle)

/-- The lower case that searches are made in is one that the text may have. Induction on the text,
one character at a time. -/
theorem lowered_flatMap_lower (text : List Char) : Lowered text (text.flatMap lower) := by
  induction text with
  | nil => exact .nil
  | cons c text ih => exact .cons (lowersTo_lower c) ih

/-- After its first character, what a character becomes is outside ASCII. So a plain word that
stands in a text in lower case begins where a character of the text begins. -/
theorem LowersTo.exists_cons {c : Char} {image : List Char} (h : LowersTo c image) :
    ∃ d ds, image = d :: ds ∧ ∀ e ∈ ds, 128 ≤ e.toNat := by
  cases h with
  | ascii _ => exact ⟨_, [], rfl, by simp⟩
  | dotted => exact ⟨_, _, rfl, List.forall_mem_singleton.2 (by decide)⟩
  | kelvin => exact ⟨_, [], rfl, by simp⟩
  | other _ _ _ hne himage =>
    obtain ⟨d, ds, rfl⟩ := List.exists_cons_of_ne_nil hne
    exact ⟨d, ds, rfl, fun e he => himage e (List.mem_cons_of_mem d he)⟩

/-! ## Words -/

/-- A word in lower case stands somewhere in a text, in any ASCII case. -/
def StandsIn (word text : List Char) : Prop :=
  ∃ found, found <:+: text ∧ found.map Char.toLower = word

/-- A word in lower case stands at the start of a text, in any ASCII case. -/
def StandsFirst (word text : List Char) : Prop :=
  ∃ found, found <+: text ∧ found.map Char.toLower = word

/-- An ASCII character other than `k`, which is the lower case of a character outside ASCII too. -/
def isPlain (c : Char) : Bool :=
  c.toNat < 128 && c != 'k'

/-- Plain characters are ASCII, which is what sets them apart from the images of other
characters. -/
theorem isPlain_lt {c : Char} (h : isPlain c) : c.toNat < 128 :=
  of_decide_eq_true (Bool.and_eq_true_iff.1 h).1

/-- A word stands at the start of a text if its first character does, in some case, and the rest of
the word stands at the start of the rest. The recursion that the induction on the word follows. -/
theorem standsFirst_cons_cons (w c : Char) (word text : List Char) :
    StandsFirst (w :: word) (c :: text) ↔ c.toLower = w ∧ StandsFirst word text := by
  constructor
  · rintro ⟨found, hstart, hfound⟩
    obtain ⟨d, found, rfl, hd, hword⟩ := List.map_eq_cons_iff.1 hfound
    rw [List.cons_prefix_cons] at hstart
    exact ⟨by rw [← hstart.1]; exact hd, found, hstart.2, hword⟩
  · rintro ⟨hc, found, hstart, hword⟩
    exact ⟨c :: found, List.cons_prefix_cons.2 ⟨rfl, hstart⟩, by rw [List.map_cons, hc, hword]⟩

/-- A word stands in a text if it stands at its start or in the rest. The recursion that the
induction on the text follows. -/
theorem standsIn_cons (word : List Char) (c : Char) (text : List Char) :
    StandsIn word (c :: text) ↔ StandsFirst word (c :: text) ∨ StandsIn word text := by
  simp only [StandsIn, StandsFirst, List.infix_cons_iff, or_and_right, exists_or]

/-! ## Search -/

/-- A plain word whose last character is not `i` does not start at the two characters that the
dotted capital becomes: the mark after the `i` is not plain, and the word goes on after an `i`. -/
theorem not_prefix_dotted {word : List Char} (hne : word ≠ []) (hword : ∀ c ∈ word, isPlain c)
    (hlast : word.getLast? ≠ some 'i') (rest : List Char) :
    ¬ word <+: 'i' :: '\u0307' :: rest := by
  obtain ⟨w, word, rfl⟩ := List.exists_cons_of_ne_nil hne
  rw [List.cons_prefix_cons]
  rintro ⟨rfl, hstart⟩
  cases word with
  | nil => exact hlast rfl
  | cons v word =>
    rw [List.cons_prefix_cons] at hstart
    have hv := hword v (List.mem_cons_of_mem _ List.mem_cons_self)
    rw [hstart.1] at hv
    exact absurd hv (by decide)

/-- Where neither a character nor the first one of its image fits a word, the word starts in neither
text. -/
theorem prefix_iff_of_ne {w c d : Char} (hd : w ≠ d) (hc : c.toLower ≠ w)
    (word text lowered : List Char) :
    w :: word <+: d :: lowered ↔ c.toLower = w ∧ StandsFirst word text := by
  refine iff_of_false ?_ fun h => hc h.1
  rw [List.cons_prefix_cons]
  exact fun h => hd h.1

/-- Where a word starts a text in lower case, it started the text. Induction on the word. Of the
characters outside ASCII, one leaves a mark after its letter, which is not plain, another turns into
`k`, and the others do not become plain at all. -/
theorem prefix_lowered_iff {word : List Char} (hword : ∀ c ∈ word, isPlain c)
    (hlast : word.getLast? ≠ some 'i') {text lowered : List Char} (h : Lowered text lowered) :
    word <+: lowered ↔ StandsFirst word text := by
  induction word generalizing text lowered with
  | nil => exact iff_of_true List.nil_prefix ⟨[], List.nil_prefix, rfl⟩
  | cons w word ih =>
    have hw := hword w List.mem_cons_self
    have hlt := isPlain_lt hw
    cases h with
    | nil => simp [StandsFirst]
    | @cons c text image lowered hc h =>
      rw [standsFirst_cons_cons]
      cases hc with
      | ascii _ =>
        have hlast' : word.getLast? ≠ some 'i' := by
          intro hi
          rw [List.getLast?_cons, hi] at hlast
          exact hlast rfl
        -- an ASCII character: its lower case against the first character of the word, and the rest
        -- by induction
        rw [List.singleton_append, List.cons_prefix_cons, eq_comm,
          ih (fun c hc => hword c (List.mem_cons_of_mem w hc)) hlast' h]
      | dotted =>
        -- the capital itself is no letter of the word, and it becomes more than an `i`
        refine iff_of_false (not_prefix_dotted (List.cons_ne_nil w word) hword hlast lowered) ?_
        rintro ⟨rfl, -⟩
        exact absurd hw (by decide)
      | kelvin =>
        -- `k`, which no plain word has
        have hk : w ≠ 'k' := by
          rintro rfl
          exact absurd hw (by decide)
        have hsign : '\u212a'.toLower ≠ w := by
          rintro rfl
          exact absurd hw (by decide)
        exact prefix_iff_of_ne hk hsign word text lowered
      | other hc _ _ hne himage =>
        -- what this becomes starts outside ASCII, where the word cannot start
        obtain ⟨d, ds, rfl⟩ := List.exists_cons_of_ne_nil hne
        have hd : w ≠ d := by
          rintro rfl
          exact absurd (himage w List.mem_cons_self) (Nat.not_le.2 hlt)
        have hc' : c.toLower ≠ w := by
          rintro rfl
          rw [toLower_of_le hc] at hlt
          omega
        exact prefix_iff_of_ne hd hc' word text (ds ++ lowered)

/-- No plain word starts within characters that are outside ASCII. Induction on these characters: at
each of them the word would start with a character that is not ASCII. -/
theorem infix_append_iff {word ds : List Char} (hne : word ≠ []) (hword : ∀ c ∈ word, isPlain c)
    (hds : ∀ d ∈ ds, 128 ≤ d.toNat) (text : List Char) :
    word <:+: ds ++ text ↔ word <:+: text := by
  induction ds with
  | nil => rfl
  | cons d ds ih =>
    -- the word does not start here, so it stands further on
    have hstart : ¬ word <+: d :: (ds ++ text) := by
      obtain ⟨w, word, rfl⟩ := List.exists_cons_of_ne_nil hne
      have hlt := isPlain_lt (hword w List.mem_cons_self)
      have hd := hds d List.mem_cons_self
      rw [List.cons_prefix_cons]
      rintro ⟨rfl, -⟩
      omega
    rw [List.cons_append, List.infix_cons_iff, or_iff_right hstart]
    exact ih fun e he => hds e (List.mem_cons_of_mem d he)

/-- **A text in lower case holds a plain word exactly if it stood in the text, in some ASCII
case.** Induction on the text, whatever its characters become. The word is in the image of the
first character and what follows it only if it starts there, since the rest of the image is
outside ASCII. -/
theorem infix_lowered_iff {word : List Char} (hne : word ≠ []) (hword : ∀ c ∈ word, isPlain c)
    (hlast : word.getLast? ≠ some 'i') {text lowered : List Char} (h : Lowered text lowered) :
    word <:+: lowered ↔ StandsIn word text := by
  induction h with
  | nil => simp [StandsIn, hne, eq_comm]
  | @cons c text image lowered hc h ih =>
    have hfirst : word <+: image ++ lowered ↔ StandsFirst word (c :: text) :=
      prefix_lowered_iff hword hlast (.cons hc h)
    -- of the image, only the first character can be the start of the word
    obtain ⟨d, ds, rfl, hds⟩ := hc.exists_cons
    rw [List.cons_append] at hfirst ⊢
    rw [List.infix_cons_iff, hfirst, infix_append_iff hne hword hds, ih, standsIn_cons]

/-- What a search without regard to case tests, in terms of the library's infixes. -/
theorem holdsAnyCase_iff_lower {word text : List Char} :
    holdsAnyCase word text ↔ word <:+: text.flatMap lower :=
  holds_iff

/-- **A search finds a plain word exactly where the word stands in some ASCII case.** The case of
`infix_lowered_iff` for the lower case that searches are made in. -/
theorem holdsAnyCase_iff {word : List Char} (hne : word ≠ []) (hword : ∀ c ∈ word, isPlain c)
    (hlast : word.getLast? ≠ some 'i') {text : List Char} :
    holdsAnyCase word text ↔ StandsIn word text := by
  rw [holdsAnyCase_iff_lower]
  exact infix_lowered_iff hne hword hlast (lowered_flatMap_lower text)

/-- What is found in a text is found in it behind another text: lower case is taken character by
character, so the text in lower case is an end of the longer one in lower case. -/
theorem holdsAnyCase_append_left {word text : List Char} (h : holdsAnyCase word text)
    (before : List Char) : holdsAnyCase word (before ++ text) := by
  rw [holdsAnyCase_iff_lower] at h ⊢
  rw [List.flatMap_append]
  exact h.trans (List.suffix_append _ _).isInfix

/-- What is found in a text is found in it before another text. -/
theorem holdsAnyCase_append_right {word text : List Char} (h : holdsAnyCase word text)
    (after : List Char) : holdsAnyCase word (text ++ after) := by
  rw [holdsAnyCase_iff_lower] at h ⊢
  rw [List.flatMap_append]
  exact h.trans (List.prefix_append _ _).isInfix

end LabelQuery.Text
