import LabelQuery.Label.Basic

/-!
# Label — reading labels at the start of a text

Each reader answers with the word read and the rest of the text. A word is the longest run of its
characters: a run that breaks a rule is refused as a whole, never cut down to a shorter word.

* `name?`, `prefix?`, `value?` — the word is the whole run.
* `key?` — a prefix that a slash follows commits the reader to a name after the slash.
* `integer?` — an optional minus sign and at least one digit.
* `key?_length_lt` — reading a key leaves less text.
-/

namespace LabelQuery.Label

/-- The longest run of `p`-characters, if `Ok` holds of it, and the rest. -/
def run? (p : Char → Bool) (Ok : List Char → Prop) [DecidablePred Ok] (cs : List Char) :
    Option (List Char × List Char) :=
  if Ok (cs.takeWhile p) then some (cs.takeWhile p, cs.dropWhile p) else none

def name? (cs : List Char) : Option (List Char × List Char) :=
  run? isNameChar IsName cs

/-- The label value at the start of a text, which may be empty. -/
def value? (cs : List Char) : Option (List Char × List Char) :=
  run? isNameChar IsValue cs

/-- The key prefix at the start of a text, without the slash. -/
def prefix? (cs : List Char) : Option (List Char × List Char) :=
  run? isPrefixChar IsPrefix cs

/-- The label key at the start of a text. A prefix with a slash after it is not taken back: if no
name follows the slash, there is no key. -/
def key? (cs : List Char) : Option (List Char × List Char) :=
  match prefix? cs with
  | some (first, '/' :: rest) =>
    (name? rest).map fun (last, rest) => (first ++ '/' :: last, rest)
  | _ => name? cs

/-- The integer at the start of a text: an optional minus sign, then the longest run of digits. -/
def integer? (cs : List Char) : Option (List Char × List Char) :=
  match cs with
  | '-' :: ds =>
    if ds.takeWhile Char.isDigit = [] then none
    else some ('-' :: ds.takeWhile Char.isDigit, ds.dropWhile Char.isDigit)
  | ds =>
    if ds.takeWhile Char.isDigit = [] then none
    else some (ds.takeWhile Char.isDigit, ds.dropWhile Char.isDigit)

/-! ## What is read and what is left make up the text -/

/-- What is read stands at the start of the text and passes the test, and the rest comes after
it. -/
theorem run?_append {p : Char → Bool} {Ok : List Char → Prop} [DecidablePred Ok]
    {cs word rest : List Char} (h : run? p Ok cs = some (word, rest)) :
    cs = word ++ rest ∧ Ok word := by
  unfold run? at h
  split at h
  · next hok =>
    cases h
    exact ⟨List.takeWhile_append_dropWhile.symm, hok⟩
  · simp at h

theorem name?_append {cs word rest : List Char} (h : name? cs = some (word, rest)) :
    cs = word ++ rest ∧ IsName word :=
  run?_append h

theorem value?_append {cs word rest : List Char} (h : value? cs = some (word, rest)) :
    cs = word ++ rest ∧ IsValue word :=
  run?_append h

theorem prefix?_append {cs word rest : List Char} (h : prefix? cs = some (word, rest)) :
    cs = word ++ rest ∧ IsPrefix word :=
  run?_append h

/-- A key that is read is a key, and stands at the start of the text. -/
theorem key?_append {cs key rest : List Char} (h : key? cs = some (key, rest)) :
    cs = key ++ rest ∧ IsKey key := by
  unfold key? at h
  split at h
  · next first tail hfirst =>
    obtain ⟨⟨last, rest'⟩, hlast, heq⟩ := Option.map_eq_some_iff.1 h
    cases heq
    obtain ⟨rfl, hprefix⟩ := prefix?_append hfirst
    obtain ⟨rfl, hname⟩ := name?_append hlast
    exact ⟨by simp, .inr ⟨first, last, hprefix, hname, rfl⟩⟩
  · obtain ⟨happend, hname⟩ := name?_append h
    exact ⟨happend, .inl hname⟩

theorem IsKey.ne_nil {cs : List Char} (h : IsKey cs) : cs ≠ [] := by
  rcases h with h | ⟨_, _, _, _, rfl⟩
  · exact h.ne_nil
  · simp

/-- Reading a key leaves less text than there was. -/
theorem key?_length_lt {cs key rest : List Char} (h : key? cs = some (key, rest)) :
    rest.length < cs.length := by
  obtain ⟨rfl, hkey⟩ := key?_append h
  have := List.length_pos_iff.2 hkey.ne_nil
  simp only [List.length_append]
  omega

/-- Reading a value leaves no more text than there was. -/
theorem value?_length_le {cs word rest : List Char} (h : value? cs = some (word, rest)) :
    rest.length ≤ cs.length := by
  obtain ⟨rfl, _⟩ := value?_append h
  simp

/-- Reading an integer leaves no more text than there was. -/
theorem integer?_length_le {cs word rest : List Char} (h : integer? cs = some (word, rest)) :
    rest.length ≤ cs.length := by
  have hdrop : ∀ ds : List Char, (ds.dropWhile Char.isDigit).length ≤ ds.length := fun ds =>
    (List.dropWhile_sublist _).length_le
  unfold integer? at h
  split at h
  · next ds =>
    split at h
    · simp at h
    · cases h
      have := hdrop ds
      simp only [List.length_cons]
      omega
  · split at h
    · simp at h
    · cases h
      exact hdrop _

end LabelQuery.Label
