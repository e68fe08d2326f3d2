import LabelQuery.Label.Reader
import LabelQuery.Proofs.Number.Parts

/-!
# Label — the readers take whole words

A reader takes a key, a value or an integer whole when the text after the word cannot go on with it.
With the lemmas beside the readers, which say that what is read is such a word, this fixes what each
reader does.

* `key?_eq_some`, `value?_eq_some`, `integer?_eq_some` — a word and what cannot go on with it.
* `WritesInt v n` — `v` is an optional minus sign and digits, and denotes `n`.
* `int64?_isSome_iff` — such a word is taken for an integer exactly if it is in the range of 64 bits.
-/

namespace LabelQuery.Label

open Text

/-! ## The characters of labels -/

/-- The characters of a label key: those of a name, and the slash after a prefix. -/
def isKeyChar (c : Char) : Bool :=
  isNameChar c || c == '/'

theorem isKeyChar_of_isNameChar {c : Char} (h : isNameChar c) : isKeyChar c := by
  rw [isKeyChar, h, Bool.true_or]

/-- Where a key cannot go on, neither can a name. -/
theorem stops_isNameChar_of_stops_isKeyChar {cs : List Char} (h : Stops isKeyChar cs) :
    Stops isNameChar cs := by
  intro c hc
  have hkey := h c hc
  rw [isKeyChar, Bool.or_eq_false_iff] at hkey
  exact hkey.1

/-- A value is empty or a name, so its characters are those of names. -/
theorem IsValue.chars {cs : List Char} (h : IsValue cs) : ∀ c ∈ cs, isNameChar c := by
  rcases h with rfl | h
  · simp
  · exact h.1

/-- A character of a text is the separator or stands in one of the parts. Induction on the text. A
separator starts a new part, and any other character goes to the front of the first part of the
rest. -/
theorem mem_splitAt (sep : Char) {c : Char} {cs : List Char} (h : c ∈ cs) :
    c = sep ∨ ∃ part ∈ splitAt sep cs, c ∈ part := by
  induction cs with
  | nil => simp at h
  | cons d cs ih =>
    -- the rest has a first part, which the character `d` may be put in front of
    obtain ⟨part, parts, hparts⟩ := List.exists_cons_of_ne_nil (splitAt_ne_nil sep cs)
    rw [hparts] at ih
    -- the separator starts a new part, any other character goes to the first one
    by_cases hd : d = sep
    · rcases List.mem_cons.1 h with rfl | h
      · exact .inl hd
      · refine (ih h).imp_right ?_
        rintro ⟨p, hp, hc⟩
        exact ⟨p, by simp [splitAt, hd, hparts, List.mem_cons.1 hp], hc⟩
    · have hsplit : splitAt sep (d :: cs) = (d :: part) :: parts := by
        simp [splitAt, hd, hparts]
      rw [hsplit]
      rcases List.mem_cons.1 h with rfl | h
      · exact .inr ⟨_, List.mem_cons_self, List.mem_cons_self⟩
      · refine (ih h).imp_right ?_
        rintro ⟨p, hp, hc⟩
        rcases List.mem_cons.1 hp with rfl | hp
        · exact ⟨_, List.mem_cons_self, List.mem_cons_of_mem _ hc⟩
        · exact ⟨p, List.mem_cons_of_mem _ hp, hc⟩

/-- A prefix is made of dots and of the characters of its parts. That no other character gets in
follows from `mem_splitAt`: the parts and the dots between them are the whole text. -/
theorem IsPrefix.chars {cs : List Char} (h : IsPrefix cs) : ∀ c ∈ cs, isPrefixChar c := by
  intro c hc
  rcases mem_splitAt '.' hc with rfl | ⟨part, hpart, hmem⟩
  · decide
  · rw [isPrefixChar, (h.2 part hpart).1 c hmem, Bool.true_or]

/-- A key is made of characters of names and, if it has a prefix, of a slash. -/
theorem IsKey.chars {cs : List Char} (h : IsKey cs) : ∀ c ∈ cs, isKeyChar c := by
  intro c hc
  rcases h with h | ⟨first, last, hfirst, hlast, rfl⟩
  · -- a name alone
    exact isKeyChar_of_isNameChar (h.1 c hc)
  · rcases List.mem_append.1 hc with hc | hc
    · exact isKeyChar_of_isNameChar (isNameChar_of_isPrefixChar (hfirst.chars c hc))
    · rcases List.mem_cons.1 hc with rfl | hc
      · decide
      · exact isKeyChar_of_isNameChar (hlast.1 c hc)

/-! ## Words are taken whole -/

/-- **A reader of runs takes a word whole** if the text after the word cannot go on with the run.
Names, values and prefixes are read by such readers, each with its own class of characters and its
own test. -/
theorem run?_eq_some {p : Char → Bool} {Ok : List Char → Prop} [DecidablePred Ok]
    {word rest : List Char} (hchars : ∀ c ∈ word, p c) (hok : Ok word) (hrest : Stops p rest) :
    run? p Ok (word ++ rest) = some (word, rest) := by
  unfold run?
  rw [takeWhile_append hchars hrest, dropWhile_append hchars hrest, if_pos hok]

theorem name?_eq_some {word rest : List Char} (hword : IsName word) (hrest : Stops isNameChar rest) :
    name? (word ++ rest) = some (word, rest) :=
  run?_eq_some hword.1 hword hrest

/-- A value is taken whole, if no character of a name follows it. The value may be empty. -/
theorem value?_eq_some {word rest : List Char} (hword : IsValue word)
    (hrest : Stops isNameChar rest) : value? (word ++ rest) = some (word, rest) :=
  run?_eq_some hword.chars hword hrest

theorem prefix?_eq_some {first rest : List Char} (hfirst : IsPrefix first) :
    prefix? (first ++ '/' :: rest) = some (first, '/' :: rest) :=
  run?_eq_some hfirst.chars hfirst (by rw [stops_cons]; decide)

/-- A prefix and its slash commit the reader to a name after them: what is read is this name with
the prefix in front, or nothing. -/
theorem key?_of_isPrefix {first : List Char} (hfirst : IsPrefix first) (rest : List Char) :
    key? (first ++ '/' :: rest) =
      (name? rest).map fun (last, rest) => (first ++ '/' :: last, rest) := by
  rw [key?, prefix?_eq_some hfirst]
  rfl

/-- A key with a prefix is taken whole, if no character of a name follows it. -/
theorem key?_prefixed {first last rest : List Char} (hfirst : IsPrefix first) (hlast : IsName last)
    (hrest : Stops isNameChar rest) :
    key? (first ++ '/' :: last ++ rest) = some (first ++ '/' :: last, rest) := by
  rw [List.append_assoc, List.cons_append, key?_of_isPrefix hfirst, name?_eq_some hlast hrest]
  rfl

/-- A name is a key, unless it can be a prefix and its slash follows. The reader first looks for a
prefix and a slash. If it finds them, they end where the longest run of name characters ends, and so
does the name. -/
theorem key?_plain {word rest : List Char} (hword : IsName word) (hrest : Stops isNameChar rest)
    (hslash : IsPrefix word → rest.head? ≠ some '/') : key? (word ++ rest) = some (word, rest) := by
  unfold key?
  split
  · -- a prefix and a slash split the text at the end of its first run of name characters, where the
    -- name ends, so that the name is the prefix
    next first tail hfirst =>
    exfalso
    obtain ⟨happend, hdns⟩ := prefix?_append hfirst
    have hchars : ∀ c ∈ first, isNameChar c := fun c hc =>
      isNameChar_of_isPrefixChar (hdns.chars c hc)
    obtain ⟨rfl, rfl⟩ := append_inj_of_stops hword.1 hchars hrest
      ((stops_cons _ _ _).2 isNameChar_slash) happend
    exact hslash hdns rfl
  · exact name?_eq_some hword hrest

/-- **A key is taken whole**, if no character of a key follows it. A slash is such a character, so
that the exception of `key?_plain` does not arise. -/
theorem key?_eq_some {key rest : List Char} (hkey : IsKey key) (hrest : Stops isKeyChar rest) :
    key? (key ++ rest) = some (key, rest) := by
  have hstop := stops_isNameChar_of_stops_isKeyChar hrest
  rcases hkey with h | ⟨first, last, hfirst, hlast, rfl⟩
  · -- a name: the slash that would commit the reader is a character of a key
    exact key?_plain h hstop fun _ hhead => absurd (hrest '/' hhead) (by decide)
  · exact key?_prefixed hfirst hlast hstop

/-- A text is a key exactly if reading a key takes the whole text. -/
theorem key?_whole_iff {key : List Char} : key? key = some (key, []) ↔ IsKey key := by
  constructor
  · intro h
    exact (key?_append h).2
  · intro h
    simpa using key?_eq_some h (stops_nil isKeyChar)

/-- A text is a value exactly if reading a value takes the whole text. -/
theorem value?_whole_iff {word : List Char} : value? word = some (word, []) ↔ IsValue word := by
  constructor
  · intro h
    exact (value?_append h).2
  · intro h
    simpa using value?_eq_some h (stops_nil isNameChar)

/-! ## Integers -/

/-- `v` is an optional minus sign and decimal digits, at least one, and denotes an integer. -/
inductive WritesInt : List Char → Int → Prop where
  | plain {ds : List Char} (hds : Number.IsDigits ds) : WritesInt ds (Number.ofDigits 10 ds)
  | minus {ds : List Char} (hds : Number.IsDigits ds) :
      WritesInt ('-' :: ds) (-Number.ofDigits 10 ds)

theorem isDigits_takeWhile {cs : List Char} (h : cs.takeWhile Char.isDigit ≠ []) :
    Number.IsDigits (cs.takeWhile Char.isDigit) :=
  ⟨h, fun _ hc => (List.all_eq_true.1 (List.all_takeWhile (p := Char.isDigit) (l := cs))) _ hc⟩

/-- An integer that is read stands at the start of the text, and its digits are the longest run. The
reader takes a minus sign off first, so the two cases are the two ways to write an integer. -/
theorem integer?_writesInt {cs v rest : List Char} (h : integer? cs = some (v, rest)) :
    cs = v ++ rest ∧ (∃ n, WritesInt v n) ∧ Stops Char.isDigit rest := by
  unfold integer? at h
  split at h
  · next ds =>
    split at h
    · simp at h
    · next hne =>
      -- a minus sign and the digits after it
      cases h
      exact ⟨by simp, ⟨_, .minus (isDigits_takeWhile hne)⟩, stops_dropWhile _ _⟩
  · split at h
    · simp at h
    · next hne =>
      cases h
      exact ⟨by simp, ⟨_, .plain (isDigits_takeWhile hne)⟩, stops_dropWhile _ _⟩

/-- A row of digits begins with a digit. -/
theorem isDigits_cons {ds : List Char} (h : Number.IsDigits ds) :
    ∃ d tail, ds = d :: tail ∧ d.isDigit := by
  cases ds with
  | nil => exact absurd rfl h.1
  | cons d tail => exact ⟨d, tail, rfl, h.2 d List.mem_cons_self⟩

/-- **An integer is taken whole**, if no digit follows it. Without a sign the text begins with a
digit, and so not with the minus sign that the reader looks for. -/
theorem integer?_eq_some {v rest : List Char} {n : Int} (hv : WritesInt v n)
    (hrest : Stops Char.isDigit rest) : integer? (v ++ rest) = some (v, rest) := by
  cases hv with
  | minus hds =>
    have hchars : ∀ c ∈ _, Char.isDigit c := hds.2
    rw [List.cons_append]
    unfold integer?
    simp only [takeWhile_append hchars hrest, dropWhile_append hchars hrest, if_neg hds.1]
  | plain hds =>
    have hchars : ∀ c ∈ _, Char.isDigit c := hds.2
    obtain ⟨d, tail, rfl, hd⟩ := isDigits_cons hds
    unfold integer?
    split
    · next heq =>
      -- a minus sign is no digit
      rw [List.cons_append, List.cons.injEq] at heq
      rw [heq.1] at hd
      exact absurd hd (by decide)
    · simp only [takeWhile_append hchars hrest, dropWhile_append hchars hrest, if_neg hds.1]

/-- A text is an integer exactly if reading an integer takes the whole text. -/
theorem integer?_whole_iff {v : List Char} : integer? v = some (v, []) ↔ ∃ n, WritesInt v n := by
  constructor
  · intro h
    exact (integer?_writesInt h).2.1
  · rintro ⟨n, hn⟩
    simpa using integer?_eq_some hn (stops_nil Char.isDigit)

/-- What the syntax of selectors calls an integer is a whole number in the grammar of numbers, which
allows a plus sign too. -/
theorem WritesInt.writtenInteger {v : List Char} {n : Int} (hv : WritesInt v n) :
    Number.WrittenInteger v n := by
  cases hv with
  | plain hds => exact .intro .none hds
  | minus hds => exact .intro .minus hds

/-- Such a word is taken for an integer exactly if the number it denotes is in the range of 64 bits.
A text denotes one number only, so the number read is the number denoted. -/
theorem int64?_isSome_iff {v : List Char} {n : Int} (hv : WritesInt v n) :
    (Number.int64? v).isSome ↔ Number.InInt64 n := by
  rw [Number.int64?_isSome_iff]
  constructor
  · rintro ⟨m, hm, hrange⟩
    -- the number in range is the number that the word denotes
    rwa [hm.unique hv.writtenInteger] at hrange
  · intro hrange
    exact ⟨n, hv.writtenInteger, hrange⟩

end LabelQuery.Label
