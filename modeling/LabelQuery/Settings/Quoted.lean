import LabelQuery.Number.Integer

/-!
# Settings — bare keys and quoted texts

A key that is not quoted is a run of ASCII letters, digits, underscores and hyphens. In a text that
stands between double quotes a backslash starts an escape, and control characters other than the tab
have to be escaped.

* `bareKey?`, `quoted?` — the key, or the text up to the closing quote, and what follows it.
* `bareKey?_length_lt`, `quoted?_length_lt` — reading one of them leaves less text than there was.
-/

namespace LabelQuery.Settings

/-! ## Bare keys -/

def isKeyChar (c : Char) : Bool :=
  c.isAlphanum || c == '_' || c == '-'

/-- The key at the start of a text that is not quoted. -/
def bareKey? (cs : List Char) : Option (String × List Char) :=
  if cs.takeWhile isKeyChar = [] then none
  else some (String.ofList (cs.takeWhile isKeyChar), cs.dropWhile isKeyChar)

/-- Reading a key leaves less text than there was. -/
theorem bareKey?_length_lt {cs rest : List Char} {key : String}
    (h : bareKey? cs = some (key, rest)) : rest.length < cs.length := by
  unfold bareKey? at h
  split at h
  · cases h
  · next hne =>
    cases h
    have happend := congrArg List.length (List.takeWhile_append_dropWhile (p := isKeyChar) (l := cs))
    have hpos := List.length_pos_iff.2 hne
    rw [List.length_append] at happend
    omega

/-! ## Quoted texts -/

/-- The character that a row of hexadecimal digits names. -/
def namedChar? (digits : List Char) : Option Char :=
  let n := Number.ofDigits 16 digits
  if digits.all Number.isHex && n.isValidChar then some (Char.ofNat n) else none

/-- The character that a backslash makes of the one after it. -/
def escaped? : Char → Option Char
  | 'b' => some '\x08'
  | 't' => some '\t'
  | 'n' => some '\n'
  | 'f' => some '\x0c'
  | 'r' => some '\r'
  | '"' => some '"'
  | '\\' => some '\\'
  | _ => none

/-- A control character that may not stand in a text as it is. -/
def isControl (c : Char) : Bool :=
  (c < ' ' && c != '\t') || c == '\x7f'

/-- The character that stands at the start of a text, or that an escape there makes. -/
def char? : List Char → Option (Char × List Char)
  | [] => none
  | '\\' :: 'u' :: a :: b :: c :: d :: cs => (namedChar? [a, b, c, d]).map (·, cs)
  | '\\' :: 'U' :: a :: b :: c :: d :: e :: f :: g :: h :: cs =>
    (namedChar? [a, b, c, d, e, f, g, h]).map (·, cs)
  | '\\' :: c :: cs => (escaped? c).map (·, cs)
  | c :: cs => if c = '\\' ∨ isControl c then none else some (c, cs)

theorem char?_length_lt {cs rest : List Char} {c : Char} (h : char? cs = some (c, rest)) :
    rest.length < cs.length := by
  unfold char? at h
  split at h
  · cases h
  iterate 3
    · obtain ⟨_, _, heq⟩ := Option.map_eq_some_iff.1 h
      cases heq
      simp only [List.length_cons]
      omega
  · split at h <;> cases h
    simp

/-- A text up to its closing quote, the opening one having been read, and what follows it. -/
def quoted? (cs : List Char) : Option (List Char × List Char) :=
  match cs with
  | '"' :: rest => some ([], rest)
  | cs =>
    match _ : char? cs with
    | none => none
    | some (c, mid) => (quoted? mid).map fun (text, rest) => (c :: text, rest)
termination_by cs.length
decreasing_by exact char?_length_lt ‹char? cs = some (c, mid)›

/-- Reading a quoted text leaves less text than there was. -/
theorem quoted?_length_lt {cs text rest : List Char} (h : quoted? cs = some (text, rest)) :
    rest.length < cs.length := by
  fun_induction quoted? cs generalizing text rest with
  | case1 => cases h; simp
  | case2 => simp at h
  | case3 cs _ c mid hc ih =>
    obtain ⟨⟨more, _⟩, hmore, heq⟩ := Option.map_eq_some_iff.1 h
    cases heq
    have h₁ := ih hmore
    have h₂ := char?_length_lt hc
    omega

end LabelQuery.Settings
