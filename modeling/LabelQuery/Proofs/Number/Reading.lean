import LabelQuery.Proofs.Number.Parts

/-!
# Number — numerals, read against the grammar

A numeral is looked for in three ways, one after another, and none of them goes back on what it took.
That is no loss: a text begins like numerals of one of the three forms only, except that a
hexadecimal one begins with the decimal zero, and then the whole text is not decimal.

* `decimal?_written`, `decimal?_whole`, and likewise for hexadecimal and special numerals — each
  reader agrees with the grammar.
* `decimal?_of_startsHexadecimal` — a text that starts like a hexadecimal numeral is not decimal.
* `longest?_whole` — so the first reader that takes anything of a numeral takes it whole.
* `Numeral.Written.unique` — a text writes at most one numeral.
* `read?_written`, `read?_whole` — the choice between the readers agrees with the grammar too.
* `isNumeric_iff` — a text is a numeral exactly if it writes one that is special or in range.
* `isNumeralChar_of_isNumeric` — it has only letters, digits, underscores, points and signs.
-/

namespace LabelQuery.Number

open Text Numeral

variable {p : Char → Bool}

/-! ## Decimal numerals -/

/-- The mark of a decimal exponent ends the mantissa. -/
theorem isMantissaChar_of_toLower_e {c : Char} (h : c.toLower = 'e') :
    isMantissaChar isDecimal c = false := by
  rcases eq_or_eq_of_toLower h with rfl | rfl <;> decide

/-- **A decimal numeral that is read is written as the grammar says.** Sign, mantissa and exponent
are put together; where no exponent was found, the numeral ends with the mantissa. -/
theorem decimal?_written {cs rest : List Char} {n : Numeral} (h : decimal? cs = some (n, rest)) :
    ∃ text, cs = text ++ rest ∧ Numeral.Written text n := by
  obtain ⟨⟨m, mid⟩, hm, h⟩ := Option.bind_eq_some_iff.1 h
  obtain ⟨s, hs, hcs⟩ := written_sign cs
  obtain ⟨text, hmid, htext⟩ := mantissa?_written hm
  rw [hmid] at hcs
  -- the exponent is optional: where none is found, the mantissa ends the numeral
  cases hexponent : exponent? 'e' mid with
  | none =>
    simp only [hexponent] at h
    cases h
    exact ⟨s ++ (text ++ []), by rw [hcs]; simp, .decimal hs htext (.inl ⟨rfl, rfl⟩)⟩
  | some found =>
    obtain ⟨tail, hmid', htail⟩ := exponent?_written hexponent
    simp only [hexponent] at h
    cases h
    exact ⟨s ++ (text ++ tail), by rw [hcs, hmid']; simp, .decimal hs htext (.inr htail)⟩

/-- The decimal reader answers with decimal numerals only. -/
theorem eq_decimal_of_decimal? {cs rest : List Char} {n : Numeral}
    (h : decimal? cs = some (n, rest)) : ∃ negative m e, n = .decimal negative m e := by
  obtain ⟨_, _, h⟩ := Option.bind_eq_some_iff.1 h
  cases h
  exact ⟨_, _, _, rfl⟩

/-- **A decimal numeral is read whole.** The mantissa ends at the end of the text or at the mark of
the exponent. -/
theorem decimal?_whole {s text tail : List Char} {negative : Bool} {m : Mantissa} {e : Int}
    (hs : WrittenSign s negative) (hm : m.Written isDecimal text)
    (he : tail = [] ∧ e = 0 ∨ WrittenExponent 'e' tail e) :
    decimal? (s ++ (text ++ tail)) = some (.decimal negative m e, []) := by
  have hsign : sign (s ++ (text ++ tail)) = (negative, text ++ tail) :=
    sign_append hs (hm.stops (fun _ => isSign_eq_false) (by decide) tail)
  unfold decimal?
  rw [hsign]
  rcases he with ⟨rfl, rfl⟩ | he
  · rw [mantissa?_append rfl rfl hm (stops_nil _)]
    rfl
  · have hread : exponent? 'e' tail = some (e, []) := by
      simpa using exponent?_append he (stops_nil _)
    -- the mark of the exponent is no character of the mantissa
    have hstops : Stops (isMantissaChar isDecimal) tail := by
      simpa using he.stops (fun _ => isMantissaChar_of_toLower_e) []
    rw [mantissa?_append rfl rfl hm hstops]
    simp only [bind, Option.bind, hread]
    rfl

/-! ## Hexadecimal numerals -/

theorem isMantissaChar_of_toLower_p {c : Char} (h : c.toLower = 'p') :
    isMantissaChar isHex c = false := by
  rcases eq_or_eq_of_toLower h with rfl | rfl <;> decide

/-- What is skipped before a hexadecimal mantissa is at most one underscore, and a digit follows
it. -/
theorem skipUnderscore_written (p : Char → Bool) (cs : List Char) :
    ∃ u, cs = u ++ skipUnderscore p cs ∧
      (u = [] ∨ u = ['_'] ∧ ∃ d ∈ (skipUnderscore p cs).head?, p d) := by
  unfold skipUnderscore
  split
  · next d cs =>
    split
    · next hd => exact ⟨['_'], rfl, .inr ⟨rfl, d, rfl, hd⟩⟩
    · exact ⟨[], rfl, .inl rfl⟩
  · exact ⟨[], rfl, .inl rfl⟩

/-- Where no underscore stands, nothing is skipped. -/
theorem skipUnderscore_of_stops {cs : List Char} (h : Stops (· == '_') cs) :
    skipUnderscore p cs = cs := by
  unfold skipUnderscore
  split
  · simp at h
  · rfl

/-- A start that is `0x` in lower case is a zero and an `x` in either case. -/
theorem zero_of_toLower {start : List Char} (h : start.map Char.toLower = "0x".toList) :
    ∃ x, start = ['0', x] ∧ x.toLower = 'x' := by
  obtain ⟨c, tail, rfl, hc, htail⟩ := List.map_eq_cons_iff.1 h
  obtain ⟨x, tail, rfl, hx, hnil⟩ := List.map_eq_cons_iff.1 htail
  rw [List.map_eq_nil_iff.1 hnil]
  rcases eq_or_eq_of_toLower hc with rfl | rfl
  · exact ⟨x, rfl, hx⟩
  · exact absurd hc (by decide)

/-- **A hexadecimal numeral that is read is written as the grammar says.** Each part that was read
is put in its place; an underscore was skipped only before a digit, so the mantissa has one before
its point. -/
theorem hexadecimal?_written {cs rest : List Char} {n : Numeral}
    (h : hexadecimal? cs = some (n, rest)) : ∃ text, cs = text ++ rest ∧ Numeral.Written text n := by
  obtain ⟨mid, hzero, h⟩ := Option.bind_eq_some_iff.1 h
  obtain ⟨⟨m, mid'⟩, hm, h⟩ := Option.bind_eq_some_iff.1 h
  obtain ⟨⟨e, rest'⟩, he, h⟩ := Option.bind_eq_some_iff.1 h
  cases h
  obtain ⟨s, hs, hcs⟩ := written_sign cs
  obtain ⟨start, hstart, hmid⟩ := afterWord?_eq_some_iff.1 hzero
  obtain ⟨x, rfl, hx⟩ := zero_of_toLower hstart
  obtain ⟨u, hskip, hu⟩ := skipUnderscore_written isHex mid
  obtain ⟨text, htext, hm'⟩ := mantissa?_written hm
  obtain ⟨tail, htail, he'⟩ := exponent?_written he
  -- the parts, in their order, make up the text
  refine ⟨s ++ '0' :: x :: (u ++ (text ++ tail)), ?_, .hexadecimal hs hx ?_ hm' he'⟩
  · rw [hcs, hmid, hskip, htext, htail]
    simp
  · rw [htext] at hu
    exact hu.imp_right fun ⟨hunder, hd⟩ => ⟨hunder, hm'.whole_of_digit (by decide) hd⟩

/-- The underscore that may stand before a mantissa is skipped, and no other character is. -/
theorem skipUnderscore_append {u text rest : List Char} {m : Mantissa} (hp : p '_' = false)
    (hu : u = [] ∨ u = ['_'] ∧ m.whole ≠ []) (hm : m.Written p text) :
    skipUnderscore p (u ++ (text ++ rest)) = text ++ rest := by
  rcases hu with rfl | ⟨rfl, hne⟩
  · apply skipUnderscore_of_stops
    apply hm.stops
    · intro c hc
      exact beq_eq_false_iff_ne.2 (ne_underscore hp hc)
    · decide
  · obtain ⟨d, cs, htext, hd⟩ := hm.digit_of_whole hne rest
    rw [htext]
    exact if_pos hd

theorem sign_of_startsHexadecimal {s : List Char} {negative : Bool} (hs : WrittenSign s negative)
    (rest : List Char) : sign (s ++ '0' :: rest) = (negative, '0' :: rest) :=
  sign_append hs ((stops_cons _ _ _).2 (by decide))

/-- **A hexadecimal numeral is read whole.** The mantissa ends at the mark of the exponent, which a
hexadecimal numeral has to have. -/
theorem hexadecimal?_whole {s u text tail : List Char} {x : Char} {negative : Bool} {m : Mantissa}
    {e : Int} (hs : WrittenSign s negative) (hx : x.toLower = 'x')
    (hu : u = [] ∨ u = ['_'] ∧ m.whole ≠ []) (hm : m.Written isHex text)
    (he : WrittenExponent 'p' tail e) :
    hexadecimal? (s ++ '0' :: x :: (u ++ (text ++ tail))) = some (.hexadecimal negative m e, []) := by
  have hstart : afterWord? "0x".toList ('0' :: x :: (u ++ (text ++ tail))) =
      some (u ++ (text ++ tail)) :=
    afterWord?_append (show ['0', x].map Char.toLower = "0x".toList by simp [hx]) _
  have hread : exponent? 'p' tail = some (e, []) := by
    simpa using exponent?_append he (stops_nil _)
  have hstops : Stops (isMantissaChar isHex) tail := by
    simpa using he.stops (fun _ => isMantissaChar_of_toLower_p) []
  have hmantissa := mantissa?_append rfl rfl hm hstops
  unfold hexadecimal?
  rw [sign_of_startsHexadecimal hs]
  simp only [bind, Option.bind, hstart, skipUnderscore_append rfl hu hm, hmantissa, hread]
  rfl

theorem startsHexadecimal_of_written {cs : List Char} {negative : Bool} {m : Mantissa} {e : Int}
    (h : Numeral.Written cs (.hexadecimal negative m e)) : StartsHexadecimal cs := by
  cases h with
  | hexadecimal hs hx _ _ _ => exact ⟨_, _, _, _, hs, hx, rfl⟩

/-- The hexadecimal reader answers with hexadecimal numerals only. -/
theorem eq_hexadecimal_of_hexadecimal? {cs rest : List Char} {n : Numeral}
    (h : hexadecimal? cs = some (n, rest)) : ∃ negative m e, n = .hexadecimal negative m e := by
  obtain ⟨_, _, h⟩ := Option.bind_eq_some_iff.1 h
  obtain ⟨_, _, h⟩ := Option.bind_eq_some_iff.1 h
  obtain ⟨_, _, h⟩ := Option.bind_eq_some_iff.1 h
  cases h
  exact ⟨_, _, _, rfl⟩

/-- Where a hexadecimal numeral is read, the text starts like one. -/
theorem startsHexadecimal_of_hexadecimal? {cs : List Char} {found : Numeral × List Char}
    (h : hexadecimal? cs = some found) : StartsHexadecimal cs := by
  obtain ⟨mid, hzero, -⟩ := Option.bind_eq_some_iff.1 h
  obtain ⟨s, hs, hcs⟩ := written_sign cs
  obtain ⟨start, hstart, hmid⟩ := afterWord?_eq_some_iff.1 hzero
  obtain ⟨x, rfl, hx⟩ := zero_of_toLower hstart
  exact ⟨s, _, x, mid, hs, hx, by rw [hcs, hmid]; rfl⟩

/-- As a decimal numeral, a text that starts like a hexadecimal one is a zero with something after
it. -/
theorem decimal?_of_zero {s rest : List Char} {x : Char} {negative : Bool}
    (hs : WrittenSign s negative) (hx : x.toLower = 'x') :
    decimal? (s ++ '0' :: x :: rest) = some (.decimal negative ⟨['0'], []⟩ 0, x :: rest) := by
  unfold decimal?
  rw [sign_of_startsHexadecimal hs]
  rcases eq_or_eq_of_toLower hx with rfl | rfl <;> rfl

/-- So nothing that starts like a hexadecimal numeral is read whole as a decimal one. -/
theorem decimal?_of_startsHexadecimal {cs : List Char} (h : StartsHexadecimal cs) :
    ∃ n x rest, decimal? cs = some (n, x :: rest) := by
  obtain ⟨s, negative, x, rest, hs, hx, rfl⟩ := h
  exact ⟨_, x, rest, decimal?_of_zero hs hx⟩

/-! ## Special numerals -/

namespace Numeral

/-- A special numeral stands for itself, whatever the range. -/
def isSpecial : Numeral → Bool
  | infinity _ | nan => true
  | decimal .. | hexadecimal .. => false

end Numeral

/-- How special numerals are looked for: an infinity after a sign, by the longer word and then the
shorter, or else `nan`. -/
theorem special?_eq (cs : List Char) : special? cs =
    (((afterWord? "infinity".toList (sign cs).2).or (afterWord? "inf".toList (sign cs).2)).map
      fun rest => (infinity (sign cs).1, rest)).or
        ((afterWord? "nan".toList cs).map fun rest => (nan, rest)) := rfl

/-- The letters that special numerals begin with. -/
def isSpecialLetter (c : Char) : Bool :=
  c.toLower == 'i' || c.toLower == 'n'

/-- No digit is a letter that special numerals begin with. -/
theorem isSpecialLetter_eq_false {c : Char} (h : isDecimal c) : isSpecialLetter c = false := by
  rw [Bool.eq_false_iff]
  intro hletter
  simp only [isSpecialLetter, Bool.or_eq_true, beq_iff_eq] at hletter
  rcases hletter with hc | hc
  · rcases eq_or_eq_of_toLower hc with rfl | rfl <;> exact absurd h (by decide)
  · rcases eq_or_eq_of_toLower hc with rfl | rfl <;> exact absurd h (by decide)

/-- A text that does not begin with one of the letters of special numerals, after a sign, is none of
them. That `nan` allows no sign makes no difference, because a sign is no letter. -/
theorem special?_eq_none {cs : List Char} (h : Stops isSpecialLetter (sign cs).2) :
    special? cs = none := by
  have hletter : ∀ c ∈ (sign cs).2.head?, c.toLower ≠ 'i' ∧ c.toLower ≠ 'n' := by
    intro c hc
    simpa [isSpecialLetter] using h c hc
  have hinfinity : afterWord? "infinity".toList (sign cs).2 = none :=
    afterWord?_cons_eq_none fun c hc => (hletter c hc).1
  have hinf : afterWord? "inf".toList (sign cs).2 = none :=
    afterWord?_cons_eq_none fun c hc => (hletter c hc).1
  have hnan : afterWord? "nan".toList cs = none := by
    apply afterWord?_cons_eq_none
    intro c hc
    -- the text begins with a sign, or with what comes after one
    obtain ⟨s, hs, hcs⟩ := written_sign cs
    rw [hcs] at hc
    generalize (sign cs).1 = negative at hs
    cases hs with
    | none => exact (hletter c hc).2
    | plus =>
      cases hc
      decide
    | minus =>
      cases hc
      decide
  rw [special?_eq, hinfinity, hinf, hnan]
  rfl

/-- A text that starts like a hexadecimal numeral has a digit after its sign, and so is no special
numeral. -/
theorem special?_of_startsHexadecimal {cs : List Char} (h : StartsHexadecimal cs) :
    special? cs = none := by
  obtain ⟨s, negative, x, rest, hs, -, rfl⟩ := h
  apply special?_eq_none
  rw [sign_of_startsHexadecimal hs]
  exact (stops_cons _ _ _).2 (by decide)

/-- **A special numeral that is read is written as the grammar says.** One case for each of the
words. -/
theorem special?_written {cs rest : List Char} {n : Numeral} (h : special? cs = some (n, rest)) :
    ∃ text, cs = text ++ rest ∧ Numeral.Written text n ∧ n.isSpecial := by
  rw [special?_eq, Option.or_eq_some_iff, Option.map_eq_some_iff] at h
  rcases h with ⟨rest', h, heq⟩ | ⟨-, h⟩
  · cases heq
    obtain ⟨s, hs, hcs⟩ := written_sign cs
    -- the longer word is tried first
    have hword : ∃ text, (sign cs).2 = text ++ rest ∧
        (WrittenWord "inf".toList text ∨ WrittenWord "infinity".toList text) := by
      rcases Option.or_eq_some_iff.1 h with h | ⟨-, h⟩
      · obtain ⟨text, htext, happend⟩ := afterWord?_eq_some_iff.1 h
        exact ⟨text, happend, .inr htext⟩
      · obtain ⟨text, htext, happend⟩ := afterWord?_eq_some_iff.1 h
        exact ⟨text, happend, .inl htext⟩
    obtain ⟨text, happend, htext⟩ := hword
    refine ⟨s ++ text, ?_, .infinity hs htext, rfl⟩
    rw [List.append_assoc, ← happend]
    exact hcs
  · obtain ⟨rest', h, heq⟩ := Option.map_eq_some_iff.1 h
    cases heq
    obtain ⟨text, htext, happend⟩ := afterWord?_eq_some_iff.1 h
    exact ⟨text, happend, .nan htext, rfl⟩

/-- A text that begins with a sign and an infinity is read as one, by the longer word if it fits. -/
theorem special?_of_infinity {s text rest : List Char} {negative : Bool}
    (hs : WrittenSign s negative)
    (h : WrittenWord "inf".toList text ∨ WrittenWord "infinity".toList text) :
    special? (s ++ (text ++ rest)) =
      (((afterWord? "infinity".toList (text ++ rest)).or
        (afterWord? "inf".toList (text ++ rest))).map fun left => (infinity negative, left)).or
          ((afterWord? "nan".toList (s ++ (text ++ rest))).map fun left => (nan, left)) := by
  -- both words begin with the same letter, which is no sign
  have hhead : ∃ c tail, text = c :: tail ∧ c.toLower = 'i' := by
    rcases h with h | h
    · obtain ⟨c, tail, rfl, hc, -⟩ := List.map_eq_cons_iff.1 h
      exact ⟨c, tail, rfl, hc⟩
    · obtain ⟨c, tail, rfl, hc, -⟩ := List.map_eq_cons_iff.1 h
      exact ⟨c, tail, rfl, hc⟩
  have hsign : sign (s ++ (text ++ rest)) = (negative, text ++ rest) := by
    obtain ⟨c, tail, rfl, hc⟩ := hhead
    apply sign_append hs
    rcases eq_or_eq_of_toLower hc with rfl | rfl
    · exact (stops_cons _ _ _).2 (by decide)
    · exact (stops_cons _ _ _).2 (by decide)
  rw [special?_eq, hsign]

/-- **An infinity is read whole**, in each of its two spellings. The longer word is tried first, and
it does not fit the shorter spelling. -/
theorem special?_infinity {s text : List Char} {negative : Bool} (hs : WrittenSign s negative)
    (h : WrittenWord "inf".toList text ∨ WrittenWord "infinity".toList text) :
    special? (s ++ text) = some (infinity negative, []) := by
  have hread : (afterWord? "infinity".toList text).or (afterWord? "inf".toList text) = some [] := by
    rcases h with h | h
    · -- three letters are too few for the longer word
      have hshort : afterWord? "infinity".toList text = none := by
        rw [Option.eq_none_iff_forall_ne_some]
        intro rest hrest
        obtain ⟨start, hstart, rfl⟩ := afterWord?_eq_some_iff.1 hrest
        have hlong := congrArg List.length hstart
        have hlen := congrArg List.length h
        simp at hlong hlen
        omega
      have hinf := afterWord?_append h []
      rw [List.append_nil] at hinf
      rw [hshort, hinf]
      rfl
    · have hinfinity := afterWord?_append h []
      rw [List.append_nil] at hinfinity
      rw [hinfinity]
      rfl
  have hspecial := @special?_of_infinity s text [] negative hs h
  rw [List.append_nil, hread] at hspecial
  exact hspecial

/-- `nan` is taken off the start of a text, whatever follows it. It begins with no sign and not with
the letter of an infinity. -/
theorem special?_nan_append {text : List Char} (h : WrittenWord "nan".toList text)
    (rest : List Char) : special? (text ++ rest) = some (nan, rest) := by
  have hnan := afterWord?_append h rest
  obtain ⟨c, tail, rfl, hc, -⟩ := List.map_eq_cons_iff.1 h
  have hsign : sign (c :: tail ++ rest) = (false, c :: tail ++ rest) := by
    refine sign_append .none ((stops_cons _ _ _).2 ?_)
    rcases eq_or_eq_of_toLower hc with rfl | rfl <;> decide
  -- the text does not begin with the letter of an infinity
  have hne : ∀ d ∈ (c :: tail ++ rest).head?, d.toLower ≠ 'i' := by
    intro d hd
    cases hd
    rw [hc]
    decide
  have hinfinity : afterWord? "infinity".toList (c :: tail ++ rest) = none :=
    afterWord?_cons_eq_none hne
  have hinf : afterWord? "inf".toList (c :: tail ++ rest) = none := afterWord?_cons_eq_none hne
  rw [special?_eq, hsign, hinfinity, hinf, hnan]
  rfl

theorem special?_nan {text : List Char} (h : WrittenWord "nan".toList text) :
    special? text = some (nan, []) := by
  simpa using special?_nan_append h []

/-! ## Numerals of any form -/

/-- A text that begins with a decimal numeral is no special one: after its sign comes a digit or a
point. -/
theorem special?_of_decimal {s text tail : List Char} {negative : Bool} {m : Mantissa}
    (hs : WrittenSign s negative) (hm : m.Written isDecimal text) :
    special? (s ++ (text ++ tail)) = none := by
  have hsign : sign (s ++ (text ++ tail)) = (negative, text ++ tail) :=
    sign_append hs (hm.stops (fun _ => isSign_eq_false) (by decide) tail)
  apply special?_eq_none
  rw [hsign]
  exact hm.stops (fun _ => isSpecialLetter_eq_false) (by decide) tail

/-- Where a hexadecimal numeral begins, a decimal one would end after the zero. So a text that is
read whole as a decimal numeral is no hexadecimal one. -/
theorem hexadecimal?_eq_none {cs : List Char} {n : Numeral} (h : decimal? cs = some (n, [])) :
    hexadecimal? cs = none := by
  rw [Option.eq_none_iff_forall_ne_some]
  intro found hfound
  obtain ⟨n', x, rest, hpart⟩ :=
    decimal?_of_startsHexadecimal (startsHexadecimal_of_hexadecimal? hfound)
  rw [h] at hpart
  cases hpart

/-- The numeral at the start of a text, in range or not. -/
def longest? (cs : List Char) : Option (Numeral × List Char) :=
  (special? cs).or ((hexadecimal? cs).or (decimal? cs))

/-- **A numeral is taken whole.** The forms exclude one another, so whichever reader takes a text
first takes it whole. One case for each form, in which the readers before the right one find
nothing. -/
theorem longest?_whole {cs : List Char} {n : Numeral} (h : Numeral.Written cs n) :
    longest? cs = some (n, []) := by
  unfold longest?
  cases h with
  | infinity hs h => rw [special?_infinity hs h, Option.some_or]
  | nan h => rw [special?_nan h, Option.some_or]
  | decimal hs hm he =>
    have hdecimal := decimal?_whole hs hm he
    rw [special?_of_decimal hs hm, hexadecimal?_eq_none hdecimal, hdecimal, Option.none_or,
      Option.none_or]
  | hexadecimal hs hx hu hm he =>
    have hstart := startsHexadecimal_of_written (.hexadecimal hs hx hu hm he)
    rw [special?_of_startsHexadecimal hstart, hexadecimal?_whole hs hx hu hm he, Option.none_or,
      Option.some_or]

/-- **A text writes at most one numeral.** Whatever it writes is what the readers find in it. -/
theorem Numeral.Written.unique {cs : List Char} {n n' : Numeral} (h : Numeral.Written cs n)
    (h' : Numeral.Written cs n') : n = n' := by
  have hsame := (longest?_whole h).symm.trans (longest?_whole h')
  cases hsame
  rfl

/-- How a numeral is read: special numerals in any case, the others if they are in range. -/
theorem read?_eq (cs : List Char) : read? cs = (special? cs).or
    (((hexadecimal? cs).filter fun found => found.1.inRange).or
      ((decimal? cs).filter fun found => found.1.inRange)) := rfl

/-- **A numeral that is read is written at the start of the text**, and it is special or in
range. -/
theorem read?_written {cs rest : List Char} {n : Numeral} (h : read? cs = some (n, rest)) :
    ∃ text, cs = text ++ rest ∧ Numeral.Written text n ∧ (n.isSpecial ∨ n.inRange) := by
  rw [read?_eq, Option.or_eq_some_iff, Option.or_eq_some_iff, Option.filter_eq_some_iff,
    Option.filter_eq_some_iff] at h
  rcases h with h | ⟨-, ⟨h, hrange⟩ | ⟨-, h, hrange⟩⟩
  · obtain ⟨text, happend, htext, hspecial⟩ := special?_written h
    exact ⟨text, happend, htext, .inl hspecial⟩
  · obtain ⟨text, happend, htext⟩ := hexadecimal?_written h
    exact ⟨text, happend, htext, .inr hrange⟩
  · obtain ⟨text, happend, htext⟩ := decimal?_written h
    exact ⟨text, happend, htext, .inr hrange⟩

theorem filter_of_inRange {n : Numeral} (h : n.inRange) (rest : List Char) :
    (some (n, rest)).filter (fun found => found.1.inRange) = some (n, rest) :=
  Option.filter_some_pos h

/-- **The numeral that the readers agree on is read** if it is special or in range. The readers
before the one that found it found nothing, and the test for the range lets it pass. -/
theorem read?_of_longest? {cs rest : List Char} {n : Numeral} (h : longest? cs = some (n, rest))
    (hn : n.isSpecial ∨ n.inRange) : read? cs = some (n, rest) := by
  unfold longest? at h
  rw [read?_eq]
  rcases Option.or_eq_some_iff.1 h with h | ⟨hspecial, h⟩
  · rw [h, Option.some_or]
  · have hin : n.inRange := by
      rcases hn with hn | hn
      · -- the other readers answer with no special numerals
        rcases Option.or_eq_some_iff.1 h with h | ⟨-, h⟩
        · obtain ⟨negative, m, e, rfl⟩ := eq_hexadecimal_of_hexadecimal? h
          cases hn
        · obtain ⟨negative, m, e, rfl⟩ := eq_decimal_of_decimal? h
          cases hn
      · exact hn
    rw [hspecial, Option.none_or]
    rcases Option.or_eq_some_iff.1 h with h | ⟨hhexadecimal, h⟩
    · rw [h, filter_of_inRange hin, Option.some_or]
    · rw [hhexadecimal, h, Option.filter_none, Option.none_or, filter_of_inRange hin]

theorem read?_whole {cs : List Char} {n : Numeral} (h : Numeral.Written cs n)
    (hrange : n.isSpecial ∨ n.inRange) : read? cs = some (n, []) :=
  read?_of_longest? (longest?_whole h) hrange

/-- A text is numeric if a numeral is read and nothing is left over. -/
theorem isNumeric_iff_read? {cs : List Char} : isNumeric cs ↔ ∃ n, read? cs = some (n, []) := by
  unfold isNumeric
  split
  · next n h => simp [h]
  · next hne =>
    simp only [Bool.false_eq_true, false_iff, not_exists]
    exact hne

/-- **A text is a numeral exactly if it writes one** that is special or in range. -/
theorem isNumeric_iff {cs : List Char} :
    isNumeric cs ↔ ∃ n, Numeral.Written cs n ∧ (n.isSpecial ∨ n.inRange) := by
  rw [isNumeric_iff_read?]
  constructor
  · rintro ⟨n, h⟩
    obtain ⟨text, rfl, htext, hrange⟩ := read?_written h
    rw [List.append_nil]
    exact ⟨n, htext, hrange⟩
  · rintro ⟨n, hn, hrange⟩
    exact ⟨n, read?_whole hn hrange⟩

/-! ## Characters -/

/-- The characters of numerals. -/
def isNumeralChar (c : Char) : Bool :=
  c.isAlphanum || c == '_' || c == '.' || isSign c

theorem isAlphanum_of_isDecimal {c : Char} (h : isDecimal c) : c.isAlphanum :=
  Bool.or_eq_true_iff.2 (.inr h)

/-- Hexadecimal digits are letters or digits. -/
theorem isAlphanum_of_isHex {c : Char} (h : isHex c) : c.isAlphanum := by
  have hlower : c.isLower = (decide ('a' ≤ c) && decide (c ≤ 'z')) := rfl
  have hupper : c.isUpper = decide ('A' ≤ c ∧ c ≤ 'Z') := rfl
  have halphanum : c.isAlphanum = (c.isUpper || c.isLower || c.isDigit) := rfl
  simp only [halphanum, hlower, hupper, Bool.or_eq_true, Bool.and_eq_true, decide_eq_true_eq]
  simp only [isHex, Bool.or_eq_true, Bool.and_eq_true, decide_eq_true_eq] at h
  rcases h with (hdigit | ⟨ha, hf⟩) | ⟨ha, hf⟩
  · exact .inr hdigit
  · exact .inl (.inr ⟨ha, Char.le_trans hf (by decide)⟩)
  · exact .inl (.inl ⟨ha, Char.le_trans hf (by decide)⟩)

/-- The characters of a mantissa are characters of numerals, if its digits are letters or digits. -/
theorem isNumeralChar_of_isMantissaChar (hp : ∀ c, p c → c.isAlphanum) {c : Char}
    (h : isMantissaChar p c) : isNumeralChar c := by
  simp only [isMantissaChar, isGroupChar, Bool.or_eq_true] at h
  rcases h with (hdigit | hunderscore) | hpoint
  · simp [isNumeralChar, hp c hdigit]
  · simp [isNumeralChar, hunderscore]
  · simp [isNumeralChar, hpoint]

/-- A character whose lower case is a letter of numerals, if the capital is one too. -/
theorem isNumeralChar_of_toLower {c d : Char} (h : c.toLower = d) (hlower : isNumeralChar d)
    (hupper : isNumeralChar (Char.ofNat (d.toNat - 32))) : isNumeralChar c := by
  rcases eq_or_eq_of_toLower h with rfl | rfl
  · exact hlower
  · exact hupper

theorem WrittenSign.chars {s : List Char} {negative : Bool} (h : WrittenSign s negative) :
    ∀ c ∈ s, isNumeralChar c := by
  cases h with
  | none => simp
  | plus => exact List.forall_mem_singleton.2 rfl
  | minus => exact List.forall_mem_singleton.2 rfl

/-- A word whose letters are characters of numerals in both cases has only such characters, in
whatever case it is written. -/
theorem WrittenWord.chars {word text : List Char} (h : WrittenWord word text)
    (hword : word.all fun d => isNumeralChar d && isNumeralChar (Char.ofNat (d.toNat - 32))) :
    ∀ c ∈ text, isNumeralChar c := by
  intro c hc
  have hmem : c.toLower ∈ word := by
    rw [← h]
    exact List.mem_map_of_mem hc
  obtain ⟨hlower, hupper⟩ := Bool.and_eq_true_iff.1 (List.all_eq_true.1 hword _ hmem)
  exact isNumeralChar_of_toLower rfl hlower hupper

theorem WrittenExponent.chars {mark : Char} {text : List Char} {e : Int}
    (h : WrittenExponent mark text e) (hlower : isNumeralChar mark)
    (hupper : isNumeralChar (Char.ofNat (mark.toNat - 32))) : ∀ c ∈ text, isNumeralChar c := by
  cases h with
  | intro hc hs hgroup =>
    have hdigits : ∀ c ∈ _, isMantissaChar isDecimal c := (Mantissa.Written.whole hgroup).chars
    refine List.forall_mem_cons.2 ⟨isNumeralChar_of_toLower hc hlower hupper, ?_⟩
    refine List.forall_mem_append.2 ⟨hs.chars, fun c hc => ?_⟩
    exact isNumeralChar_of_isMantissaChar (fun _ => isAlphanum_of_isDecimal) (hdigits c hc)

/-- A numeral has only characters of numerals. One case for each form, and in it one step for each
part. -/
theorem Numeral.Written.chars {cs : List Char} {n : Numeral} (h : Numeral.Written cs n) :
    ∀ c ∈ cs, isNumeralChar c := by
  cases h with
  | infinity hs h =>
    refine List.forall_mem_append.2 ⟨hs.chars, ?_⟩
    rcases h with h | h
    · exact h.chars (by decide)
    · exact h.chars (by decide)
  | nan h => exact h.chars (by decide)
  | decimal hs hm he =>
    refine List.forall_mem_append.2 ⟨hs.chars, List.forall_mem_append.2 ⟨?_, ?_⟩⟩
    · intro c hc
      exact isNumeralChar_of_isMantissaChar (fun _ => isAlphanum_of_isDecimal) (hm.chars c hc)
    · rcases he with ⟨rfl, -⟩ | he
      · simp
      · exact he.chars (by decide) (by decide)
  | hexadecimal hs hx hu hm he =>
    refine List.forall_mem_append.2 ⟨hs.chars, List.forall_mem_cons.2 ⟨by decide, ?_⟩⟩
    refine List.forall_mem_cons.2 ⟨isNumeralChar_of_toLower hx (by decide) (by decide), ?_⟩
    refine List.forall_mem_append.2 ⟨?_, List.forall_mem_append.2 ⟨?_, ?_⟩⟩
    · -- the underscore before the mantissa, if there is one
      rcases hu with rfl | ⟨rfl, -⟩
      · simp
      · exact List.forall_mem_singleton.2 rfl
    · intro c hc
      exact isNumeralChar_of_isMantissaChar (fun _ => isAlphanum_of_isHex) (hm.chars c hc)
    · exact he.chars (by decide) (by decide)

/-- **A numeric text has only letters, digits, underscores, points and signs.** In particular it has
no quote and no blank, so that a bare value in a condition ends where it should. -/
theorem isNumeralChar_of_isNumeric {cs : List Char} (h : isNumeric cs) :
    ∀ c ∈ cs, isNumeralChar c := by
  obtain ⟨_, hwritten, -⟩ := isNumeric_iff.1 h
  exact hwritten.chars

end LabelQuery.Number
