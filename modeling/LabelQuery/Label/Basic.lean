import LabelQuery.Text.Word

/-!
# Label — names, prefixes, keys and values

The lexical rules of Kubernetes labels.

* A *name* has 1 to 63 letters, digits, `-`, `_` and `.`, and begins and ends with a letter or digit.
* A *value* is a name or empty.
* A *prefix* is a DNS subdomain: at most 253 characters, made of parts between dots, each a lower-case
  DNS label.
* A *key* is a name, or a prefix, a slash and a name.

All of these are ASCII, so a length in characters is also a length in bytes.
-/

namespace LabelQuery.Label

/-! ## Characters -/

def isNameChar (c : Char) : Bool :=
  c.isAlphanum || c == '-' || c == '_' || c == '.'

def isPartChar (c : Char) : Bool :=
  c.isLower || c.isDigit || c == '-'

/-- The characters of a prefix: those of its parts, and the dots between them. -/
def isPrefixChar (c : Char) : Bool :=
  isPartChar c || c == '.'

/-! ## Words -/

/-- The most characters of a name, and of each part of a prefix. -/
def maxNameLength : Nat := 63

def maxPrefixLength : Nat := 253

/-- `cs` is not empty, has at most `limit` characters, and begins and ends with a letter or digit. -/
def IsBounded (limit : Nat) (cs : List Char) : Prop :=
  (∃ c ∈ cs.head?, c.isAlphanum) ∧ (∃ c ∈ cs.getLast?, c.isAlphanum) ∧ cs.length ≤ limit

-- The instances say how a text is tested, one character of it after another: an instance that is
-- looked up may go through every character there is.
instance (limit : Nat) : DecidablePred (IsBounded limit) := fun cs =>
  @instDecidableAnd _ _ (Option.decidableExistsMem cs.head?)
    (@instDecidableAnd _ _ (Option.decidableExistsMem cs.getLast?) inferInstance)

def IsName (cs : List Char) : Prop :=
  (∀ c ∈ cs, isNameChar c) ∧ IsBounded maxNameLength cs

instance : DecidablePred IsName := fun cs =>
  @instDecidableAnd _ _ (List.decidableBAll _ cs) inferInstance

def IsValue (cs : List Char) : Prop :=
  cs = [] ∨ IsName cs

instance : DecidablePred IsValue := fun _ => inferInstanceAs (Decidable (_ ∨ _))

/-- One part of a prefix: a DNS label in lower case. -/
def IsPart (cs : List Char) : Prop :=
  (∀ c ∈ cs, isPartChar c) ∧ IsBounded maxNameLength cs

instance : DecidablePred IsPart := fun cs =>
  @instDecidableAnd _ _ (List.decidableBAll _ cs) inferInstance

/-- The prefix of a label key: a DNS subdomain in lower case. -/
def IsPrefix (cs : List Char) : Prop :=
  cs.length ≤ maxPrefixLength ∧ ∀ part ∈ Text.splitAt '.' cs, IsPart part

instance : DecidablePred IsPrefix := fun cs =>
  @instDecidableAnd _ _ inferInstance (List.decidableBAll _ (Text.splitAt '.' cs))

/-- A label key: a name, perhaps after a prefix and a slash. -/
def IsKey (cs : List Char) : Prop :=
  IsName cs ∨ ∃ first last, IsPrefix first ∧ IsName last ∧ cs = first ++ '/' :: last

/-! ## Small facts -/

theorem IsBounded.ne_nil {limit : Nat} {cs : List Char} (h : IsBounded limit cs) : cs ≠ [] := by
  rintro rfl
  obtain ⟨_, hc, _⟩ := h.1
  simp at hc

theorem IsName.ne_nil {cs : List Char} (h : IsName cs) : cs ≠ [] :=
  h.2.ne_nil

/-- The characters of prefixes are characters of names, so a run that a name reader takes goes at
least as far as that of a prefix reader. -/
theorem isNameChar_of_isPrefixChar {c : Char} (h : isPrefixChar c) : isNameChar c := by
  have halphanum : c.isAlphanum = (c.isUpper || c.isLower || c.isDigit) := rfl
  simp only [isPrefixChar, isPartChar, isNameChar, halphanum, Bool.or_eq_true, beq_iff_eq] at h ⊢
  rcases h with ((h | h) | h) | h <;> simp [h]

/-- A slash is no character of a name, so a key has at most one. -/
theorem isNameChar_slash : isNameChar '/' = false := by decide

end LabelQuery.Label
