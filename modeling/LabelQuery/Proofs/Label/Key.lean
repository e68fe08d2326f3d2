import LabelQuery.Proofs.Label.Reader

/-!
# Label — where a key ends

A key is read from the start of a text, and the text goes on after it. A name is the longest run of
its characters, so that a key never ends inside such a run. One thing more keeps a key from being
read: where it could be the prefix of a longer key, because its slash follows, the reader wants a
name after the slash and does not come back without one.

* `name?_eq_some_iff`, `name?_eq_none_iff` — which name stands at the start of a text.
* `key?_of_isPrefix_eq_none_iff` — a prefix and its slash, without a name after them.
* `key?_append_eq_some_iff` — which key is read at the start of a text.
-/

namespace LabelQuery.Label

open Text

/-! ## Names -/

/-- **Which word a reader of runs takes.** It stands at the start of the text, passes the test, and
ends where the run of its characters ends. The words that pass have to consist of these characters,
so that no word can end before the run does. -/
theorem run?_eq_some_iff {p : Char → Bool} {Ok : List Char → Prop} [DecidablePred Ok]
    (hok : ∀ word, Ok word → ∀ c ∈ word, p c) {cs word rest : List Char} :
    run? p Ok cs = some (word, rest) ↔ cs = word ++ rest ∧ Ok word ∧ Stops p rest := by
  constructor
  · intro h
    obtain ⟨happend, hword⟩ := run?_append h
    refine ⟨happend, hword, ?_⟩
    -- the rest is what a run of `p`-characters left over
    unfold run? at h
    split at h
    · cases h
      exact stops_dropWhile p cs
    · cases h
  · rintro ⟨rfl, hword, hrest⟩
    exact run?_eq_some (hok word hword) hword hrest

/-- Which name stands at the start of a text: it is a name, and no character of a name follows
it. -/
theorem name?_eq_some_iff {cs name rest : List Char} :
    name? cs = some (name, rest) ↔ cs = name ++ rest ∧ IsName name ∧ Stops isNameChar rest :=
  run?_eq_some_iff fun _ h => h.1

/-- No name is read exactly if none ends where the run of its characters does. -/
theorem name?_eq_none_iff {cs : List Char} :
    name? cs = none ↔
      ¬ ∃ name rest, cs = name ++ rest ∧ IsName name ∧ Stops isNameChar rest := by
  simp only [← name?_eq_some_iff, Option.eq_none_iff_forall_ne_some, Prod.forall, not_exists, ne_eq]

/-! ## Keys -/

/-- Names have no slash, so that a key with a slash has a prefix. -/
theorem slash_notMem_of_isName {cs : List Char} (h : IsName cs) : '/' ∉ cs := fun hmem =>
  absurd (h.1 '/' hmem) (by decide)

/-- No key ends inside a run of name characters. Whether there is a prefix or not, the key ends with
a name that was taken whole. -/
theorem stops_of_key?_eq_some {cs key rest : List Char} (h : key? cs = some (key, rest)) :
    Stops isNameChar rest := by
  unfold key? at h
  split at h
  · -- after a prefix and its slash
    obtain ⟨⟨last, rest⟩, hlast, heq⟩ := Option.map_eq_some_iff.1 h
    cases heq
    exact (name?_eq_some_iff.1 hlast).2.2
  · exact (name?_eq_some_iff.1 h).2.2

/-- **A prefix and its slash commit the reader**: no key is read if no name comes next. This is the
only way in which a text that begins with a name may have no key. -/
theorem key?_of_isPrefix_eq_none_iff {first : List Char} (hfirst : IsPrefix first) (rest : List Char) :
    key? (first ++ '/' :: rest) = none ↔
      ¬ ∃ name tail, rest = name ++ tail ∧ IsName name ∧ Stops isNameChar tail := by
  rw [key?_of_isPrefix hfirst, Option.map_eq_none_iff, name?_eq_none_iff]

/-- A prefix is no key before its slash: the key that is read there, if any, holds the slash. -/
theorem key?_ne_of_isPrefix {first : List Char} (hfirst : IsPrefix first) (hslash : '/' ∉ first)
    (rest : List Char) : key? (first ++ '/' :: rest) ≠ some (first, '/' :: rest) := by
  intro h
  rw [key?_of_isPrefix hfirst] at h
  obtain ⟨⟨last, tail⟩, -, heq⟩ := Option.map_eq_some_iff.1 h
  -- the key is the prefix with a slash after it, so the prefix would have a slash
  have hkey : first ++ '/' :: last = first := congrArg Prod.fst heq
  exact hslash (hkey ▸ List.mem_append_right first List.mem_cons_self)

/-- **Which key is read at the start of a text.** It is followed by no character of a name, and it
is no prefix before its slash. In particular no key is cut down to a shorter one, and a prefix with
its slash is no key if no name comes next. -/
theorem key?_append_eq_some_iff (key rest : List Char) :
    (key? (key ++ rest) = some (key, rest) ↔
      IsKey key ∧ Stops isNameChar rest ∧
        ¬ ('/' ∉ key ∧ IsPrefix key ∧ rest.head? = some '/')) ∧
    (∀ c, isNameChar c → ∀ tail, key? (key ++ c :: tail) ≠ some (key, c :: tail)) ∧
    (IsPrefix key → (¬ ∃ name tail, rest = name ++ tail ∧ IsName name ∧ Stops isNameChar tail) →
      key? (key ++ '/' :: rest) = none) := by
  refine ⟨⟨fun h => ⟨(key?_append h).2, stops_of_key?_eq_some h, ?_⟩, ?_⟩, ?_, ?_⟩
  · rintro ⟨hslash, hprefix, hhead⟩
    -- a prefix before its slash is not read as a key
    obtain ⟨tail, rfl⟩ := List.head?_eq_some_iff.1 hhead
    exact key?_ne_of_isPrefix hprefix hslash tail h
  · rintro ⟨hkey, hstop, hcommits⟩
    rcases hkey with hname | ⟨first, last, hfirst, hlast, rfl⟩
    · -- a name without its slash after it, or one that is no prefix
      exact key?_plain hname hstop fun hprefix hhead =>
        hcommits ⟨slash_notMem_of_isName hname, hprefix, hhead⟩
    · exact key?_prefixed hfirst hlast hstop
  · intro c hc tail h
    have hstop := stops_of_key?_eq_some h
    rw [stops_cons, hc] at hstop
    cases hstop
  · intro hprefix hnone
    exact (key?_of_isPrefix_eq_none_iff hprefix rest).2 hnone

/-- A capital keeps a word from being a prefix, so that a key ends before the slash. The same word
in lower case commits the reader to a name, and a hyphen starts none. -/
theorem key?_before_slash :
    key? "Example.com/-x".toList = some ("Example.com".toList, "/-x".toList) ∧
      key? "example.com/-x".toList = none := by
  constructor
  · have hkey : IsKey "Example.com".toList := .inl (by decide)
    have hprefix : ¬ IsPrefix "Example.com".toList := by decide
    exact (key?_append_eq_some_iff "Example.com".toList "/-x".toList).1.2
      ⟨hkey, (stops_cons _ _ _).2 isNameChar_slash, fun h => hprefix h.2.1⟩
  · have hprefix : IsPrefix "example.com".toList := by decide
    have hnone : ¬ ∃ name tail, "-x".toList = name ++ tail ∧ IsName name ∧ Stops isNameChar tail :=
      name?_eq_none_iff.1 (by decide)
    exact (key?_append_eq_some_iff "example.com".toList "-x".toList).2.2 hprefix hnone

end LabelQuery.Label
