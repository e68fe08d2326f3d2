import LabelQuery.Proofs.Selector.Grammar

/-!
# Selector — reading one requirement against the grammar

What is read at the start of a text has one of the forms of the grammar, and a form of the grammar is
read whole wherever a requirement may end.

* `read?_written` — soundness. An integer that is read takes the longest run of digits.
* `AtBreak rest` — only blanks stand before the end of the text or a comma.
* `read?_of_written` — completeness, for a requirement at a break.

Reading a comparison with an empty value goes over the blanks that follow it, so completeness says
only that what is left begins after some blanks: `BlanksTo`.
-/

namespace LabelQuery.Draft

open Text Label

/-! ## What is read has a form of the grammar -/

/-- A sign that is read stands at the start of the text. One case for each branch of the reader. -/
theorem sign?_sign {cs rest : List Char} {operator : Operator}
    (h : sign? cs = some (operator, rest)) : ∃ s, Sign s operator ∧ cs = s ++ rest := by
  unfold sign? at h
  split at h
  · cases h; exact ⟨_, .doubleEquals, rfl⟩
  · cases h; exact ⟨_, .notEquals, rfl⟩
  · cases h; exact ⟨_, .equals, rfl⟩
  · cases h; exact ⟨_, .greaterThan, rfl⟩
  · cases h; exact ⟨_, .lessThan, rfl⟩
  · cases h

/-- What is read after a sign is what the operator is compared with, and for an order the digits are
the longest run: the rest begins with no digit. -/
theorem operand?_isOperand {operator : Operator} {cs v rest : List Char}
    (h : operand? operator cs = some (v, rest)) :
    cs = v ++ rest ∧ IsOperand operator v ∧ (operator.isNumeric → Stops Char.isDigit rest) := by
  unfold operand? at h
  unfold IsOperand
  -- an integer after `>` and `<`, a label value after the other signs
  split at h
  · next hnum =>
    obtain ⟨happend, hint, hstop⟩ := integer?_writesInt h
    rw [if_pos hnum]
    exact ⟨happend, hint, fun _ => hstop⟩
  · next hnum =>
    obtain ⟨happend, hvalue⟩ := value?_append h
    rw [if_neg hnum]
    exact ⟨happend, hvalue, fun hyes => absurd hyes hnum⟩

/-- A comparison that is read is blanks, a sign, blanks and an operand, in this order. -/
theorem comparison?_parts {cs rest : List Char} {operator : Operator} {values : List String}
    (h : comparison? cs = some ((operator, values), rest)) :
    ∃ w₁ s w₂ v, AllBlank w₁ ∧ Sign s operator ∧ AllBlank w₂ ∧ IsOperand operator v ∧
      values = [String.ofList v] ∧ cs = w₁ ++ s ++ w₂ ++ v ++ rest ∧
      (operator.isNumeric → Stops Char.isDigit rest) := by
  unfold comparison? at h
  simp only [Option.bind_eq_bind, Option.bind_eq_some_iff, Prod.exists] at h
  obtain ⟨op, cs₁, hsign, v, cs₂, hoperand, heq⟩ := h
  cases heq
  obtain ⟨s, hs, hafter⟩ := sign?_sign hsign
  obtain ⟨happend, hv, hstop⟩ := operand?_isOperand hoperand
  obtain ⟨w₁, hw₁, hcs⟩ := blanksTo_skipBlanks cs
  obtain ⟨w₂, hw₂, hcs₁⟩ := blanksTo_skipBlanks cs₁
  refine ⟨w₁, s, w₂, v, hw₁, hs, hw₂, hv, rfl, ?_, hstop⟩
  -- the pieces in the order in which the reader went over them
  calc cs = w₁ ++ (s ++ cs₁) := by rw [← hafter]; exact hcs
    _ = w₁ ++ (s ++ (w₂ ++ (v ++ rest))) := by rw [← happend, ← hcs₁]
    _ = w₁ ++ s ++ w₂ ++ v ++ rest := by simp only [List.append_assoc]

/-- A word of a set test that is read stands at the start of the text. -/
theorem word?_word {cs rest : List Char} {operator : Operator}
    (h : word? cs = some (operator, rest)) : ∃ word, Word word operator ∧ cs = word ++ rest := by
  unfold word? at h
  split at h
  · cases h; exact ⟨_, .noneOf, rfl⟩
  · cases h; exact ⟨_, .oneOf, rfl⟩
  · cases h

/-- The values of a set stand between blanks, and the closing parenthesis comes next. Induction on
the reader, which goes on after a comma and ends at the parenthesis. -/
theorem values?_written {cs rest : List Char} {values : List String}
    (h : values? cs = some (values, rest)) :
    ∃ w₁ body w₂, AllBlank w₁ ∧ WrittenValues body values ∧ AllBlank w₂ ∧
      cs = w₁ ++ body ++ w₂ ++ ')' :: rest := by
  fun_induction values? cs generalizing values rest with
  | case1 => simp at h
  | case2 cs value mid hv tail hr ih =>
    -- a comma, after which the other values are written by induction
    obtain ⟨⟨more, rest'⟩, hmore, heq⟩ := Option.map_eq_some_iff.1 h
    cases heq
    obtain ⟨happend, hvalue⟩ := value?_append hv
    obtain ⟨w₁, hw₁, hcs⟩ := blanksTo_skipBlanks cs
    obtain ⟨w₂, hw₂, hmid⟩ := blanksTo_skipBlanks mid
    obtain ⟨w₃, body, w₄, hw₃, hbody, hw₄, htail⟩ := ih hmore
    refine ⟨w₁, value ++ w₂ ++ ',' :: (w₃ ++ body), w₄, hw₁, .more hvalue hw₂ hw₃ hbody, hw₄, ?_⟩
    rw [hcs, happend, hmid, hr, htail]
    simp only [List.append_assoc, List.cons_append]
  | case3 cs value mid hv tail hr =>
    -- the parenthesis, before which the last value stands
    cases h
    obtain ⟨happend, hvalue⟩ := value?_append hv
    obtain ⟨w₁, hw₁, hcs⟩ := blanksTo_skipBlanks cs
    obtain ⟨w₂, hw₂, hmid⟩ := blanksTo_skipBlanks mid
    refine ⟨w₁, value, w₂, hw₁, .one hvalue, hw₂, ?_⟩
    rw [hcs, happend, hmid, hr]
    simp only [List.append_assoc]
  | case4 => simp at h

/-- A set test that is read is at least one blank, a word, and values in parentheses, with blanks
between them. -/
theorem set?_parts {cs rest : List Char} {operator : Operator} {values : List String}
    (h : set? cs = some ((operator, values), rest)) :
    ∃ w₁ word w₂ w₃ body w₄, AllBlank w₁ ∧ w₁ ≠ [] ∧ Word word operator ∧ AllBlank w₂ ∧
      AllBlank w₃ ∧ WrittenValues body values ∧ AllBlank w₄ ∧
      cs = w₁ ++ word ++ w₂ ++ '(' :: (w₃ ++ body ++ w₄ ++ [')']) ++ rest := by
  unfold set? at h
  simp only [Option.bind_eq_bind, Option.bind_eq_some_iff, Prod.exists] at h
  obtain ⟨w₁, cs₁, hrun, op, cs₂, hop, h⟩ := h
  split at h
  · next cs₃ hopen =>
    simp only [Option.bind_eq_some_iff, Prod.exists] at h
    obtain ⟨found, cs₄, hvalues, heq⟩ := h
    cases heq
    obtain ⟨hw₁, hne, hcs⟩ := blanks1?_parts hrun
    obtain ⟨word, hword, happend⟩ := word?_word hop
    obtain ⟨w₂, hw₂, hcs₂⟩ := blanksTo_skipBlanks cs₂
    obtain ⟨w₃, body, w₄, hw₃, hbody, hw₄, hcs₃⟩ := values?_written hvalues
    -- put the pieces together again from the left
    refine ⟨w₁, word, w₂, w₃, body, w₄, hw₁, hne, hword, hw₂, hw₃, hbody, hw₄, ?_⟩
    rw [hcs, happend, hcs₂, hopen, hcs₃]
    simp only [List.append_assoc, List.cons_append, List.nil_append]
  · cases h

/-! ## Whole requirements -/

/-- A requirement that is read after an exclamation mark is written there, as the absence of its
key. -/
theorem negated?_written {cs rest : List Char} {d : Draft} (h : negated? cs = some (d, rest)) :
    d.operator = .absent ∧ ∃ body, cs = body ++ rest ∧ Written body d := by
  unfold negated? at h
  -- without an exclamation mark nothing is read
  split at h
  · next tail =>
    obtain ⟨⟨key, mid⟩, hread, heq⟩ := Option.map_eq_some_iff.1 h
    cases heq
    obtain ⟨happend, hkey⟩ := key?_append hread
    obtain ⟨w, hw, htail⟩ := blanksTo_skipBlanks tail
    refine ⟨rfl, '!' :: (w ++ key), ?_, .absent hw hkey⟩
    rw [htail, happend]
    simp only [List.cons_append, List.append_assoc]
  · cases h

/-- A requirement that is read from its key on is written there. The key alone is the form
`present`; what follows it makes it a comparison or a set test. -/
theorem keyed?_written {cs rest : List Char} {d : Draft} (h : keyed? cs = some (d, rest)) :
    (d.operator.isNumeric → Stops Char.isDigit rest) ∧
      ∃ body, cs = body ++ rest ∧ Written body d := by
  obtain ⟨⟨key, mid⟩, hread, heq⟩ := Option.map_eq_some_iff.1 h
  obtain ⟨rfl, hkey⟩ := key?_append hread
  dsimp only at heq
  -- a comparison or a set test follows the key, or the requirement ends with it
  split at heq
  · next operator values tail htail =>
    cases heq
    unfold tail? at htail
    rcases Option.or_eq_some_iff.1 htail with hcomparison | ⟨-, hset⟩
    · obtain ⟨w₁, s, w₂, v, hw₁, hs, hw₂, hv, rfl, rfl, hstop⟩ := comparison?_parts hcomparison
      refine ⟨hstop, key ++ w₁ ++ s ++ w₂ ++ v, ?_, .comparison hkey hw₁ hs hw₂ hv⟩
      simp only [List.append_assoc]
    · obtain ⟨w₁, word, w₂, w₃, body, w₄, hw₁, hne, hword, hw₂, hw₃, hbody, hw₄, rfl⟩ :=
        set?_parts hset
      refine ⟨?_, key ++ w₁ ++ word ++ w₂ ++ '(' :: (w₃ ++ body ++ w₄ ++ [')']), ?_,
        .set hkey hw₁ hne hword hw₂ hw₃ hbody hw₄⟩
      · cases hword <;> simp [Operator.isNumeric]
      · simp only [List.append_assoc]
  · cases heq
    exact ⟨by simp [Operator.isNumeric], key, rfl, .present hkey⟩

/-- What is read at the start of a text is written there, and an integer at its end is followed by
no further digit. This is soundness for one requirement. -/
theorem read?_written {cs rest : List Char} {d : Draft} (h : read? cs = some (d, rest)) :
    (d.operator.isNumeric → Stops Char.isDigit rest) ∧
      ∃ body, cs = body ++ rest ∧ Written body d := by
  unfold read? at h
  rcases Option.or_eq_some_iff.1 h with h | ⟨-, h⟩
  · -- the absence of a key has no integer
    obtain ⟨hop, hbody⟩ := negated?_written h
    exact ⟨by simp [hop, Operator.isNumeric], hbody⟩
  · exact keyed?_written h

/-! ## Where a requirement may end -/

/-- Only blanks stand before the end of the text or a comma. Nothing that could go on with a
requirement stands there, so every form ends where the grammar says. -/
def AtBreak (rest : List Char) : Prop :=
  skipBlanks rest = [] ∨ ∃ tail, skipBlanks rest = ',' :: tail

/-- After the blanks of a break nothing goes on that has no comma in it, so a run of such characters
has ended. -/
theorem AtBreak.stops_skipBlanks {p : Char → Bool} {rest : List Char} (h : AtBreak rest)
    (hcomma : p ',' = false) : Stops p (skipBlanks rest) := by
  rcases h with h | ⟨tail, h⟩
  · rw [h]
    exact stops_nil p
  · rw [h]
    exact (stops_cons p _ _).2 hcomma

theorem isNameChar_of_isBlank {c : Char} (h : isBlank c) : isNameChar c = false := by
  rcases isBlank_cases h with rfl | rfl | rfl | rfl <;> decide

theorem isDigit_of_isBlank {c : Char} (h : isBlank c) : Char.isDigit c = false := by
  rcases isBlank_cases h with rfl | rfl | rfl | rfl <;> decide

/-! ## Operands and values after blanks -/

theorem IsValue.stops_isBlank {v : List Char} (hv : IsValue v) (hne : v ≠ []) (rest : List Char) :
    Stops isBlank (v ++ rest) :=
  stops_word_append hne hv.chars (fun _ => isNameChar_of_isBlank) rest

/-- A label value is read after blanks. An empty value is found after the blanks that follow it, any
other where it begins, so what is left is the rest up to some blanks. -/
theorem value?_of_isValue {w v : List Char} (hw : AllBlank w) (hv : IsValue v) (rest : List Char)
    (hrest : Stops isNameChar (skipBlanks rest)) :
    ∃ left, BlanksTo rest left ∧ value? (skipBlanks (w ++ (v ++ rest))) = some (v, left) := by
  rw [skipBlanks_append hw]
  by_cases hne : v = []
  · -- the blanks before an empty value and those after it are one run, which is gone over at once
    subst hne
    refine ⟨skipBlanks rest, blanksTo_skipBlanks rest, ?_⟩
    exact value?_eq_some hv hrest
  · -- a value that is not empty stops the blanks before it
    refine ⟨rest, .refl rest, ?_⟩
    rw [skipBlanks_of_stops (IsValue.stops_isBlank hv hne rest)]
    exact value?_eq_some hv (hrest.of_skipBlanks fun c => isNameChar_of_isBlank)

theorem WritesInt.stops_isBlank {v : List Char} {n : Int} (hv : WritesInt v n)
    (rest : List Char) : Stops isBlank (v ++ rest) := by
  cases hv with
  | minus => rw [List.cons_append, stops_cons]; decide
  | plain hds => exact stops_word_append hds.1 hds.2 (fun _ => isDigit_of_isBlank) rest

/-- An operand that is written at a break is read whole, an integer up to the break and a label
value perhaps with blanks of it. -/
theorem operand?_of_isOperand {operator : Operator} {w v rest : List Char} (hw : AllBlank w)
    (hv : IsOperand operator v) (hrest : AtBreak rest) :
    ∃ left, BlanksTo rest left ∧
      operand? operator (skipBlanks (w ++ (v ++ rest))) = some (v, left) := by
  unfold IsOperand at hv
  unfold operand?
  split at hv
  · next hnum =>
    -- an integer is never empty, so no blanks of the break are gone over
    obtain ⟨n, hn⟩ := hv
    refine ⟨rest, .refl rest, ?_⟩
    rw [if_pos hnum, skipBlanks_append hw, skipBlanks_of_stops (WritesInt.stops_isBlank hn rest)]
    exact integer?_eq_some hn
      ((hrest.stops_skipBlanks (by decide)).of_skipBlanks fun c => isDigit_of_isBlank)
  · next hnum =>
    rw [if_neg hnum]
    exact value?_of_isValue hw hv rest (hrest.stops_skipBlanks (by decide))

/-- One step of the reader of values, by what follows a value: it goes on after a comma, ends at the
closing parenthesis, and finds nothing anywhere else. -/
theorem values?_of_value {cs mid v : List Char} (hv : value? (skipBlanks cs) = some (v, mid)) :
    values? cs = match skipBlanks mid with
      | ',' :: rest => (values? rest).map fun (values, rest) => (String.ofList v :: values, rest)
      | ')' :: rest => some ([String.ofList v], rest)
      | _ => none := by
  rw [values?]
  split
  · next hnone => rw [hv] at hnone; cases hnone
  · next hsome =>
    rw [hv] at hsome
    cases hsome
    split
    · next h => simp only [h]
    · next h => simp only [h]
    · next hcomma hclose =>
      split
      · next h => exact absurd h (hcomma _)
      · next h => exact absurd h (hclose _)
      · rfl

/-- The values of a set are read up to the closing parenthesis. Induction on how they are written;
the blanks before the first value vary, since they are those after a comma for the others. -/
theorem values?_of_written {body : List Char} {values : List String}
    (h : WrittenValues body values) {w w' : List Char} (hw : AllBlank w) (hw' : AllBlank w')
    (rest : List Char) : values? (w ++ (body ++ (w' ++ ')' :: rest))) = some (values, rest) := by
  induction h generalizing w with
  | one hv =>
    have hskip : skipBlanks (w' ++ ')' :: rest) = ')' :: rest := by
      rw [skipBlanks_append hw']
      rfl
    obtain ⟨mid, hmid, hread⟩ := value?_of_isValue hw hv (w' ++ ')' :: rest)
      (by rw [hskip, stops_cons]; decide)
    -- blanks that were gone over before do not change where the parenthesis is found
    rw [values?_of_value hread, ← hmid.skipBlanks_eq, hskip]
    rfl
  | @more v w₁ w₂ tail values hv hw₁ hw₂ _ ih =>
    have hskip : skipBlanks (w₁ ++ ',' :: (w₂ ++ (tail ++ (w' ++ ')' :: rest))))
        = ',' :: (w₂ ++ (tail ++ (w' ++ ')' :: rest))) := by
      rw [skipBlanks_append hw₁]
      rfl
    obtain ⟨mid, hmid, hread⟩ := value?_of_isValue hw hv
      (w₁ ++ ',' :: (w₂ ++ (tail ++ (w' ++ ')' :: rest))))
      (by rw [hskip, stops_cons]; decide)
    simp only [List.append_assoc, List.cons_append]
    rw [values?_of_value hread, ← hmid.skipBlanks_eq, hskip]
    show (values? (w₂ ++ (tail ++ (w' ++ ')' :: rest)))).map _ = _
    rw [ih hw₂]
    rfl

/-! ## What follows a key -/

theorem Sign.stops_isBlank {s : List Char} {operator : Operator} (h : Sign s operator)
    (rest : List Char) : Stops isBlank (s ++ rest) := by
  cases h <;> (simp only [List.cons_append, stops_cons]; decide)

/-- A sign begins with no character of a key, so the key before it ends there. -/
theorem Sign.stops_isKeyChar {s : List Char} {operator : Operator} (h : Sign s operator)
    (rest : List Char) : Stops isKeyChar (s ++ rest) := by
  cases h <;> (simp only [List.cons_append, stops_cons]; decide)

/-- A sign is read whole. Only `=` could be taken for the start of a longer sign, so it must not be
followed by a second one. -/
theorem sign?_of_sign {s rest : List Char} {operator : Operator} (h : Sign s operator)
    (hrest : operator = .equals → Stops (· == '=') rest) :
    sign? (s ++ rest) = some (operator, rest) := by
  cases h with
  | equals =>
    cases rest with
    | nil => rfl
    | cons c cs =>
      -- a second `=` would make the other sign
      have hc : c ≠ '=' := by simpa using hrest rfl
      rw [List.cons_append, List.nil_append, sign?]
      intro tail heq
      rw [(List.cons.inj heq).1] at hc
      exact hc rfl
  | doubleEquals => rfl
  | notEquals => rfl
  | greaterThan => rfl
  | lessThan => rfl

/-- No second sign stands where a label value is written after `=`: neither blanks nor label values
nor a break begin with one. -/
theorem stops_equals {w v rest : List Char} (hw : AllBlank w) (hv : IsOperand .equals v)
    (hrest : AtBreak rest) : Stops (· == '=') (w ++ (v ++ rest)) := by
  have hblank : ∀ c, isBlank c → (c == '=') = false := by
    intro c hc
    rcases isBlank_cases hc with rfl | rfl | rfl | rfl <;> decide
  have hname : ∀ c, isNameChar c → (c == '=') = false := by
    intro c hc
    rw [← Bool.not_eq_true, beq_iff_eq]
    rintro rfl
    exact absurd hc (by decide)
  have hvalue : IsValue v := hv
  -- blanks, the value and the break after it come one after another, and none begins with `=`
  refine .append (fun c hc => hblank c (hw c hc)) ?_
  refine .append (fun c hc => hname c (hvalue.chars c hc)) ?_
  exact (hrest.stops_skipBlanks (by decide)).of_skipBlanks hblank

/-- A comparison that is written at a break is read whole, perhaps with blanks of the break. -/
theorem comparison?_of_parts {w₁ s w₂ v rest : List Char} {operator : Operator}
    (hw₁ : AllBlank w₁) (hs : Sign s operator) (hw₂ : AllBlank w₂) (hv : IsOperand operator v)
    (hrest : AtBreak rest) :
    ∃ left, BlanksTo rest left ∧ comparison? (w₁ ++ (s ++ (w₂ ++ (v ++ rest))))
      = some ((operator, [String.ofList v]), left) := by
  obtain ⟨left, hleft, hoperand⟩ := operand?_of_isOperand hw₂ hv hrest
  refine ⟨left, hleft, ?_⟩
  have hsign : sign? (s ++ (w₂ ++ (v ++ rest))) = some (operator, w₂ ++ (v ++ rest)) := by
    -- the condition on `=` holds at an operand
    refine sign?_of_sign hs ?_
    rintro rfl
    exact stops_equals hw₂ hv hrest
  unfold comparison?
  rw [skipBlanks_append hw₁, skipBlanks_of_stops (hs.stops_isBlank _), hsign]
  simp only [Option.bind_eq_bind, Option.bind_some, hoperand, pure]

theorem Word.stops_isBlank {word : List Char} {operator : Operator} (h : Word word operator)
    (rest : List Char) : Stops isBlank (word ++ rest) := by
  cases h <;> (simp only [List.cons_append, stops_cons]; decide)

theorem word?_of_word {word : List Char} {operator : Operator} (h : Word word operator)
    (rest : List Char) : word? (word ++ rest) = some (operator, rest) := by
  cases h <;> rfl

/-- A word is no sign, so a set test is not taken for a comparison, which is tried first. -/
theorem comparison?_of_word {w word : List Char} {operator : Operator} (hw : AllBlank w)
    (hword : Word word operator) (rest : List Char) : comparison? (w ++ (word ++ rest)) = none := by
  unfold comparison?
  rw [skipBlanks_append hw, skipBlanks_of_stops (hword.stops_isBlank rest)]
  cases hword <;> rfl

/-- A set test that is written is read whole. It ends with its parenthesis, so there is no condition
on what follows. -/
theorem set?_of_parts {w₁ word w₂ w₃ body w₄ : List Char} {operator : Operator}
    {values : List String} (hw₁ : AllBlank w₁) (hne : w₁ ≠ []) (hword : Word word operator)
    (hw₂ : AllBlank w₂) (hw₃ : AllBlank w₃) (hbody : WrittenValues body values)
    (hw₄ : AllBlank w₄) (rest : List Char) :
    set? (w₁ ++ (word ++ (w₂ ++ '(' :: (w₃ ++ (body ++ (w₄ ++ ')' :: rest))))))
      = some ((operator, values), rest) := by
  have hopen : skipBlanks (w₂ ++ '(' :: (w₃ ++ (body ++ (w₄ ++ ')' :: rest))))
      = '(' :: (w₃ ++ (body ++ (w₄ ++ ')' :: rest))) := by
    rw [skipBlanks_append hw₂]
    rfl
  unfold set?
  rw [blanks1?_eq_some hw₁ hne (hword.stops_isBlank _)]
  simp only [Option.bind_eq_bind, Option.bind_some, word?_of_word hword, hopen,
    values?_of_written hbody hw₃ hw₄, pure]

/-- Nothing that could follow a key is read at a break: neither its end nor a comma begins a sign or
a word. -/
theorem tail?_of_atBreak {rest : List Char} (h : AtBreak rest) : tail? rest = none := by
  have hcomparison : comparison? rest = none := by
    unfold comparison?
    rcases h with h | ⟨tail, h⟩ <;> rw [h] <;> rfl
  -- a set test needs a word after its blanks
  have hset : set? rest = none := by
    unfold set? blanks1?
    split
    · rfl
    · have hword : word? (blanks rest).2 = none := by
        show word? (skipBlanks rest) = none
        rcases h with h | ⟨tail, h⟩ <;> rw [h] <;> rfl
      simp only [Option.bind_eq_bind, Option.bind_some, hword, Option.bind_none]
  rw [tail?, hcomparison, hset]
  rfl

/-! ## Forms of the grammar are read whole -/

/-- A requirement that begins with a key is no negated one, and what it is depends on what is read
after the key. -/
theorem read?_of_isKey {key rest : List Char} (hkey : IsKey key) (hrest : Stops isKeyChar rest) :
    read? (key ++ rest) = some (match tail? rest with
      | some ((operator, values), left) => (⟨String.ofList key, operator, values⟩, left)
      | none => (⟨String.ofList key, .present, []⟩, rest)) := by
  have hnegated : negated? (key ++ rest) = none := by
    unfold negated?
    split
    · -- no key begins with an exclamation mark
      next heq =>
      exfalso
      cases key with
      | nil => exact hkey.ne_nil rfl
      | cons c cs =>
        cases heq
        exact absurd (hkey.chars _ List.mem_cons_self) (by decide)
    · rfl
  rw [read?, hnegated, Option.none_or, keyed?, key?_eq_some hkey hrest]
  rfl

/-- A form of the grammar is read whole at a break, perhaps with blanks that follow it. This is
completeness for one requirement; one case for each form. -/
theorem read?_of_written {body rest : List Char} {d : Draft} (h : Written body d)
    (hrest : AtBreak rest) : ∃ left, BlanksTo rest left ∧ read? (body ++ rest) = some (d, left) := by
  have hstop : Stops isKeyChar rest :=
    (hrest.stops_skipBlanks (by decide)).of_skipBlanks fun c => isKeyChar_of_isBlank
  cases h with
  | @absent w key hw hkey =>
    refine ⟨rest, .refl rest, ?_⟩
    have hnegated : negated? ('!' :: (w ++ key) ++ rest)
        = some (⟨String.ofList key, .absent, []⟩, rest) := by
      simp only [List.cons_append, List.append_assoc, negated?]
      rw [skipBlanks_append hw, skipBlanks_of_stops (hkey.stops_isBlank rest),
        key?_eq_some hkey hstop]
      rfl
    rw [read?, hnegated]
    rfl
  | present hkey =>
    refine ⟨rest, .refl rest, ?_⟩
    rw [read?_of_isKey hkey hstop, tail?_of_atBreak hrest]
  | @comparison key w₁ s w₂ v operator hkey hw₁ hs hw₂ hv =>
    -- a comparison is the one form that may take blanks of the break
    obtain ⟨left, hleft, hcomparison⟩ := comparison?_of_parts hw₁ hs hw₂ hv hrest
    refine ⟨left, hleft, ?_⟩
    have hstop : Stops isKeyChar (w₁ ++ (s ++ (w₂ ++ (v ++ rest)))) :=
      .append (fun c hc => isKeyChar_of_isBlank (hw₁ c hc)) (hs.stops_isKeyChar _)
    simp only [List.append_assoc]
    rw [read?_of_isKey hkey hstop, tail?, hcomparison]
    rfl
  | @set key w₁ word w₂ w₃ values w₄ operator body hkey hw₁ hne hword hw₂ hw₃ hbody hw₄ =>
    refine ⟨rest, .refl rest, ?_⟩
    have hstop : ∀ tail, Stops isKeyChar (w₁ ++ tail) := by
      intro tail
      obtain ⟨c, cs, rfl⟩ := List.exists_cons_of_ne_nil hne
      exact (stops_cons _ _ _).2 (isKeyChar_of_isBlank (hw₁ c List.mem_cons_self))
    simp only [List.append_assoc, List.cons_append, List.nil_append]
    -- the comparison is tried first, and the word of the set test is no sign
    rw [read?_of_isKey hkey (hstop _), tail?, comparison?_of_word hw₁ hword,
      set?_of_parts hw₁ hne hword hw₂ hw₃ hbody hw₄]
    rfl

end LabelQuery.Draft
