import LabelQuery.Settings.Document.Line

/-!
# Settings — texts over several lines

Three quotes, double or single, open a text that may run over several lines, and three of them close
it. A line break right after the opening quotes does not count, and any other is a line feed. Between
double quotes there are escapes, and a backslash at the end of a line joins it to the next character
that is neither blank nor a line break.

`multiline?` — a text over several lines and what follows it.
-/

namespace LabelQuery.Settings.Document

/-- A text without the gaps and line breaks at its start. -/
def skipBlank : List Char → List Char
  | [] => []
  | '\r' :: '\n' :: cs => skipBlank cs
  | c :: cs => if isGap c || c == '\n' then skipBlank cs else c :: cs

/-- The text that a backslash at the end of a line joins to that line. -/
def continuation? : List Char → Option (List Char)
  | '\\' :: cs => (lineBreak? (skipGap cs)).map skipBlank
  | _ => none

/-- A character that stands for itself at the start of a text. -/
def plain? : List Char → Option (Char × List Char)
  | [] => none
  | c :: cs => if isControl c then none else some (c, cs)

/-- What the start of a text adds to a text over several lines. -/
def piece? (quote : Char) (cs : List Char) : Option (List Char × List Char) :=
  match lineBreak? cs with
  | some rest => some (['\n'], rest)
  | none =>
    if quote = '"' then
      match continuation? cs with
      | some rest => some ([], rest)
      | none => (char? cs).map fun (c, rest) => ([c], rest)
    else (plain? cs).map fun (c, rest) => ([c], rest)

/-- What quotes add to a text that they close, and what follows them. Three of them close it. Of four
or five in a row the first ones belong to the text. -/
def closing? (quote : Char) (cs : List Char) : Option (List Char × List Char) :=
  let quotes := (cs.take 5).takeWhile (· == quote)
  if quotes.length < 3 then none else some (quotes.drop 3, cs.drop quotes.length)

theorem skipBlank_length_le (cs : List Char) : (skipBlank cs).length ≤ cs.length := by
  fun_induction skipBlank cs <;> simp only [List.length_cons, List.length_nil] <;> omega

theorem continuation?_length_lt {cs rest : List Char} (h : continuation? cs = some rest) :
    rest.length < cs.length := by
  unfold continuation? at h
  split at h
  · next tail =>
    obtain ⟨mid, hmid, rfl⟩ := Option.map_eq_some_iff.1 h
    have h₁ := lineBreak?_length_lt hmid
    have h₂ := skipGap_length_le tail
    have h₃ := skipBlank_length_le mid
    simp only [List.length_cons]
    omega
  · cases h

theorem piece?_length_lt {quote : Char} {cs piece rest : List Char}
    (h : piece? quote cs = some (piece, rest)) : rest.length < cs.length := by
  unfold piece? at h
  split at h
  · next hbreak =>
    cases h
    exact lineBreak?_length_lt hbreak
  · split at h
    · split at h
      · next hcont =>
        cases h
        exact continuation?_length_lt hcont
      · obtain ⟨⟨_, _⟩, hchar, heq⟩ := Option.map_eq_some_iff.1 h
        cases heq
        exact char?_length_lt hchar
    · obtain ⟨⟨_, _⟩, hplain, heq⟩ := Option.map_eq_some_iff.1 h
      cases heq
      unfold plain? at hplain
      split at hplain
      · cases hplain
      · split at hplain <;> cases hplain
        simp

theorem closing?_length_le {quote : Char} {cs text rest : List Char}
    (h : closing? quote cs = some (text, rest)) : rest.length ≤ cs.length := by
  unfold closing? at h
  dsimp only at h
  split at h
  · cases h
  · cases h
    exact (List.drop_sublist _ _).length_le

/-- A text up to its closing quotes, and what follows it. -/
def body? (quote : Char) (cs : List Char) : Option (List Char × List Char) :=
  match closing? quote cs with
  | some closed => some closed
  | none =>
    match _ : piece? quote cs with
    | none => none
    | some (piece, mid) => (body? quote mid).map fun (text, rest) => (piece ++ text, rest)
termination_by cs.length
decreasing_by exact piece?_length_lt ‹piece? quote cs = some (piece, mid)›

/-- A text over several lines, the opening quotes having been read, and what follows it. -/
def multiline? (quote : Char) (cs : List Char) : Option (List Char × List Char) :=
  body? quote ((lineBreak? cs).getD cs)

theorem body?_length_le {quote : Char} {cs text rest : List Char}
    (h : body? quote cs = some (text, rest)) : rest.length ≤ cs.length := by
  fun_induction body? quote cs generalizing text rest with
  | case1 cs closed hclosed =>
    cases h
    exact closing?_length_le hclosed
  | case2 => cases h
  | case3 cs _ piece mid hpiece ih =>
    obtain ⟨⟨_, _⟩, hmore, heq⟩ := Option.map_eq_some_iff.1 h
    cases heq
    have h₁ := ih hmore
    have h₂ := piece?_length_lt hpiece
    omega

/-- Reading a text over several lines leaves no more text than there was. -/
theorem multiline?_length_le {quote : Char} {cs text rest : List Char}
    (h : multiline? quote cs = some (text, rest)) : rest.length ≤ cs.length := by
  have h₁ := body?_length_le h
  cases hbreak : lineBreak? cs with
  | none => simpa [hbreak] using h₁
  | some mid =>
    have h₂ := lineBreak?_length_lt hbreak
    rw [hbreak, Option.getD_some] at h₁
    omega

end LabelQuery.Settings.Document
