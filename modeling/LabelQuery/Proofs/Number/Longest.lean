import LabelQuery.Proofs.Number.Reading

/-!
# Number — the longest numeral at the start of a text

Readers that try one form after another, and take what they can of each optional part, need not find
the longest text that the grammar allows. Those of numerals do. Two facts make it so, part by part:
what a reader takes is written as the grammar says, and it does not stop before the end of anything
that is so written at the start of the text.

* `Reaches` — what a reader left over is an end of a text.
* `mantissa?_reaches`, `exponent?_reaches`, and likewise for numerals of each form — no reader stops
  before the end of a part that stands at the start of its text.
* `longest?_eq_some_iff` — the choice between the readers takes the longest numeral.
* `binary64?_longest` — what becomes of the longest numeral, in range or not.
-/

namespace LabelQuery.Number

open Text Numeral

variable {p : Char → Bool}

/-- A reader found something, and what it left over is an end of `rest`. -/
def Reaches {α : Type} (found : Option (α × List Char)) (rest : List Char) : Prop :=
  ∃ a left, found = some (a, left) ∧ left <:+ rest

theorem Reaches.of_eq {α : Type} {found : Option (α × List Char)} {a : α} {rest : List Char}
    (h : found = some (a, rest)) : Reaches found rest :=
  ⟨a, rest, h, List.suffix_refl rest⟩

/-! ## Parts -/

/-- The digits that go on with a group leave an end of the text over. Induction on the text. -/
theorem moreDigits_suffix (p : Char → Bool) (cs : List Char) : (moreDigits p cs).2 <:+ cs := by
  fun_induction moreDigits p cs with
  | case1 => exact List.suffix_refl _
  | case2 d cs _ ih => exact (ih.trans (List.suffix_cons d cs)).trans (List.suffix_cons _ _)
  | case3 => exact List.suffix_refl _
  | case4 d cs _ _ ih => exact ih.trans (List.suffix_cons d cs)
  | case5 => exact List.suffix_refl _

theorem optionalGroup_suffix (p : Char → Bool) (cs : List Char) : (optionalGroup p cs).2 <:+ cs := by
  rcases optionalGroup_written (Prod.eta (optionalGroup p cs)).symm with ⟨text, happend, -⟩ | ⟨-, heq⟩
  · exact ⟨text, happend.symm⟩
  · exact ⟨[], heq.symm⟩

/-- An optional fraction leaves an end of the text over. -/
theorem optionalFraction_suffix (p : Char → Bool) (cs : List Char) :
    (optionalFraction p cs).2 <:+ cs := by
  unfold optionalFraction
  split
  · exact (optionalGroup_suffix p _).trans (List.suffix_cons _ _)
  · exact List.suffix_refl _

/-- **Reading a mantissa does not stop before the end of one that is written there.** It may go on
into the text after it: a last group takes further digits, and a mantissa without a point may get
one. One case for each form. -/
theorem mantissa?_reaches (hp : p '_' = false) (hp' : p '.' = false) {text : List Char} {m : Mantissa}
    (h : m.Written p text) (rest : List Char) : Reaches (mantissa? p (text ++ rest)) rest := by
  cases h with
  | @whole text ds h =>
    -- the group may go on, and a fraction may follow
    refine ⟨⟨_, _⟩, _, mantissa?_eq_some_iff.2 ⟨_, optionalGroup_append_more hp h rest, rfl, ?_⟩, ?_⟩
    · exact fun hnil => h.ne_nil (List.append_eq_nil_iff.1 hnil.1).1
    · exact (optionalFraction_suffix p _).trans (moreDigits_suffix p rest)
  | @point text ds h =>
    rw [List.append_assoc]
    refine ⟨⟨_, _⟩, _, mantissa?_eq_some_iff.2 ⟨_,
      optionalGroup_append hp h (stops_point hp' rest), rfl, ?_⟩, optionalGroup_suffix p rest⟩
    exact fun hnil => h.ne_nil hnil.1
  | @both text ds text' es h h' =>
    -- the first group ends at the point, the second may go on
    rw [List.append_assoc]
    refine ⟨⟨_, _⟩, _, mantissa?_eq_some_iff.2 ⟨_, optionalGroup_append hp h (stops_point hp' _),
      optionalGroup_append_more hp h' rest, ?_⟩, moreDigits_suffix p rest⟩
    exact fun hnil => h.ne_nil hnil.1
  | @fraction text' es h' =>
    refine ⟨⟨_, _⟩, _, mantissa?_eq_some_iff.2 ⟨_,
      optionalGroup_of_stops ((stops_cons _ _ (text' ++ rest)).2 hp'),
      optionalGroup_append_more hp h' rest, ?_⟩, moreDigits_suffix p rest⟩
    exact fun hnil => h'.ne_nil (List.append_eq_nil_iff.1 hnil.2).1

/-- Reading an exponent does not stop before the end of one that is written there; further digits
may go on with it. -/
theorem exponent?_reaches {mark : Char} {text : List Char} {e : Int} (h : WrittenExponent mark text e)
    (rest : List Char) : Reaches (exponent? mark (text ++ rest)) rest := by
  cases h with
  | @intro c s digits ds negative hc hs hgroup =>
    have hsign : Stops isSign (digits ++ rest) := hgroup.stops (fun _ => isSign_eq_false) rest
    rw [List.cons_append, List.append_assoc, exponent?_of_mark hc hs hsign,
      group?_append_more rfl hgroup rest]
    exact ⟨_, _, rfl, moreDigits_suffix isDecimal rest⟩

/-! ## Numerals of one form -/

/-- **Reading a decimal numeral does not stop before the end of one.** Without an exponent, it may
go on in its mantissa and then find an exponent; with one, the mantissa ends where it should. -/
theorem decimal?_reaches {s text tail : List Char} {negative : Bool} {m : Mantissa} {e : Int}
    (hs : WrittenSign s negative) (hm : m.Written isDecimal text)
    (he : tail = [] ∧ e = 0 ∨ WrittenExponent 'e' tail e) (rest : List Char) :
    Reaches (decimal? (s ++ (text ++ (tail ++ rest)))) rest := by
  have hsign : sign (s ++ (text ++ (tail ++ rest))) = (negative, text ++ (tail ++ rest)) :=
    sign_append hs (hm.stops (fun _ => isSign_eq_false) (by decide) _)
  unfold decimal?
  rw [hsign]
  rcases he with ⟨rfl, rfl⟩ | he
  · -- the mantissa may go on into the rest, and an exponent after it only goes further
    obtain ⟨m', left, hread, hleft⟩ := mantissa?_reaches rfl rfl hm rest
    rw [List.nil_append, hread]
    refine ⟨_, _, rfl, List.IsSuffix.trans ?_ hleft⟩
    cases hexponent : exponent? 'e' left with
    | none => exact List.suffix_refl left
    | some found =>
      obtain ⟨tail, happend, -⟩ := exponent?_written hexponent
      exact ⟨tail, happend.symm⟩
  · -- the mantissa ends at the mark, and the exponent may go on
    have hstops : Stops (isMantissaChar isDecimal) (tail ++ rest) :=
      he.stops (fun _ => isMantissaChar_of_toLower_e) rest
    obtain ⟨e', left, hread, hleft⟩ := exponent?_reaches he rest
    rw [mantissa?_append rfl rfl hm hstops]
    simp only [bind, Option.bind, hread]
    exact ⟨_, _, rfl, hleft⟩

/-- **Reading a hexadecimal numeral does not stop before the end of one.** Its mantissa ends at the
mark, so that only the digits of the exponent may go on. -/
theorem hexadecimal?_reaches {s u text tail : List Char} {x : Char} {negative : Bool} {m : Mantissa}
    {e : Int} (hs : WrittenSign s negative) (hx : x.toLower = 'x')
    (hu : u = [] ∨ u = ['_'] ∧ m.whole ≠ []) (hm : m.Written isHex text)
    (he : WrittenExponent 'p' tail e) (rest : List Char) :
    Reaches (hexadecimal? (s ++ '0' :: x :: (u ++ (text ++ (tail ++ rest))))) rest := by
  have hstart : afterWord? "0x".toList ('0' :: x :: (u ++ (text ++ (tail ++ rest)))) =
      some (u ++ (text ++ (tail ++ rest))) :=
    afterWord?_append (show ['0', x].map Char.toLower = "0x".toList by simp [hx]) _
  have hstops : Stops (isMantissaChar isHex) (tail ++ rest) :=
    he.stops (fun _ => isMantissaChar_of_toLower_p) rest
  have hmantissa := mantissa?_append rfl rfl hm hstops
  obtain ⟨e', left, hread, hleft⟩ := exponent?_reaches he rest
  unfold hexadecimal?
  rw [sign_of_startsHexadecimal hs]
  simp only [bind, Option.bind, hstart, skipUnderscore_append rfl hu hm, hmantissa, hread]
  exact ⟨_, _, rfl, hleft⟩

/-- Reading an infinity does not stop before the end of one. If the longer word fits, it has the
shorter one at its start. -/
theorem special?_reaches_infinity {s text : List Char} {negative : Bool} (hs : WrittenSign s negative)
    (h : WrittenWord "inf".toList text ∨ WrittenWord "infinity".toList text) (rest : List Char) :
    Reaches (special? (s ++ (text ++ rest))) rest := by
  rw [special?_of_infinity hs h]
  cases hlong : afterWord? "infinity".toList (text ++ rest) with
  | none =>
    -- then it is the shorter word that is written
    rcases h with h | h
    · rw [afterWord?_append h rest]
      exact .of_eq rfl
    · rw [afterWord?_append h rest] at hlong
      cases hlong
  | some left =>
    refine ⟨_, left, rfl, ?_⟩
    obtain ⟨start, hstart, happend⟩ := afterWord?_eq_some_iff.1 hlong
    -- the longer word is at least as long as what is written
    have hlength : text.length ≤ start.length := by
      have hstart := congrArg List.length hstart
      rcases h with h | h
      · have htext := congrArg List.length h
        simp at hstart htext
        omega
      · have htext := congrArg List.length h
        simp at hstart htext
        omega
    -- so what is written is a start of it, and the rest of it is in the rest of the text
    obtain ⟨more, hmore⟩ : text <+: start :=
      List.prefix_of_prefix_length_le ⟨rest, rfl⟩ ⟨left, happend.symm⟩ hlength
    rw [← hmore, List.append_assoc] at happend
    exact ⟨more, (List.append_cancel_left happend).symm⟩

/-- The decimal zero that a hexadecimal numeral begins with ends sooner, so where both readers find
something, the hexadecimal one reaches further. -/
theorem suffix_of_hexadecimal? {cs left left' : List Char} {n n' : Numeral}
    (h : hexadecimal? cs = some (n, left)) (h' : decimal? cs = some (n', left')) : left <:+ left' := by
  obtain ⟨text, rfl, hn⟩ := hexadecimal?_written h
  obtain ⟨negative, m, e, rfl⟩ := eq_hexadecimal_of_hexadecimal? h
  cases hn with
  | @hexadecimal s u text tail x _ _ _ hs hx hu hm he =>
    rw [List.append_assoc, List.cons_append, List.cons_append, decimal?_of_zero hs hx] at h'
    cases h'
    exact ⟨x :: (u ++ (text ++ tail)), rfl⟩

/-! ## The longest numeral -/

/-- What the readers agree on is a numeral at the start of the text. -/
theorem longest?_written {cs rest : List Char} {n : Numeral} (h : longest? cs = some (n, rest)) :
    ∃ text, cs = text ++ rest ∧ Numeral.Written text n := by
  unfold longest? at h
  rcases Option.or_eq_some_iff.1 h with h | ⟨-, h⟩
  · obtain ⟨text, happend, htext, -⟩ := special?_written h
    exact ⟨text, happend, htext⟩
  · rcases Option.or_eq_some_iff.1 h with h | ⟨-, h⟩
    · exact hexadecimal?_written h
    · exact decimal?_written h

/-- **A numeral that stands at the start of a text is not too long for the readers.** One case for
each form. Where a decimal numeral is written, the hexadecimal reader may find something longer. -/
theorem longest?_reaches {text : List Char} {n : Numeral} (h : Numeral.Written text n)
    (rest : List Char) : Reaches (longest? (text ++ rest)) rest := by
  unfold longest?
  cases h with
  | infinity hs h =>
    rw [List.append_assoc]
    obtain ⟨n, left, hread, hleft⟩ := special?_reaches_infinity hs h rest
    rw [hread, Option.some_or]
    exact ⟨n, left, rfl, hleft⟩
  | nan h =>
    rw [special?_nan_append h, Option.some_or]
    exact .of_eq rfl
  | decimal hs hm he =>
    rw [List.append_assoc, List.append_assoc, special?_of_decimal hs hm, Option.none_or]
    obtain ⟨n, left, hread, hleft⟩ := decimal?_reaches hs hm he rest
    -- a hexadecimal numeral that is found reaches further than the decimal one
    cases hhex : hexadecimal? _ with
    | none =>
      rw [hread, Option.none_or]
      exact ⟨n, left, rfl, hleft⟩
    | some found =>
      exact ⟨_, _, rfl, (suffix_of_hexadecimal? hhex hread).trans hleft⟩
  | @hexadecimal s u text tail x negative m e hs hx hu hm he =>
    have hassoc : s ++ '0' :: x :: (u ++ (text ++ tail)) ++ rest =
        s ++ '0' :: x :: (u ++ (text ++ (tail ++ rest))) := by
      simp
    have hspecial : special? (s ++ '0' :: x :: (u ++ (text ++ (tail ++ rest)))) = none :=
      special?_of_startsHexadecimal ⟨s, negative, x, _, hs, hx, rfl⟩
    rw [hassoc, hspecial, Option.none_or]
    obtain ⟨n, left, hread, hleft⟩ := hexadecimal?_reaches hs hx hu hm he rest
    rw [hread, Option.some_or]
    exact ⟨n, left, rfl, hleft⟩

/-- The longest start of a text that is a numeral, what is left after it, and the numeral. -/
structure Longest (cs text rest : List Char) (n : Numeral) : Prop where
  append : cs = text ++ rest
  written : Numeral.Written text n
  longest : ∀ {text' n'}, text' <+: cs → Numeral.Written text' n' → text'.length ≤ text.length

/-- **The choice between the readers takes the longest numeral.** What it finds is a numeral, and no
other at the start of the text ends later, because the readers reach its end. Conversely the readers
reach the end of the longest one and cannot go beyond it. -/
theorem longest?_eq_some_iff {cs rest : List Char} {n : Numeral} :
    longest? cs = some (n, rest) ↔ ∃ text, Longest cs text rest n := by
  constructor
  · intro h
    obtain ⟨text, happend, hn⟩ := longest?_written h
    refine ⟨text, happend, hn, ?_⟩
    rintro text' n' ⟨rest', rfl⟩ hn'
    -- another numeral ends no later, because the readers reach its end
    obtain ⟨_, left, hread, hleft⟩ := longest?_reaches hn' rest'
    rw [h] at hread
    cases hread
    have hlength := congrArg List.length happend
    have hle := hleft.length_le
    simp only [List.length_append] at hlength
    omega
  · rintro ⟨text, rfl, hn, hlongest⟩
    obtain ⟨n', left, hread, hleft⟩ := longest?_reaches hn rest
    obtain ⟨text', happend, hn'⟩ := longest?_written hread
    have hlength := congrArg List.length happend
    have hle := hlongest ⟨left, happend.symm⟩ hn'
    simp only [List.length_append] at hlength
    -- both ends are the same one, so the two numerals are written by one text
    have heq : left = rest := hleft.eq_of_length_le (by omega)
    rw [heq] at happend hread
    rw [List.append_cancel_right happend] at hn
    rw [hread, hn.unique hn']

/-- Where a numeral stands at the start of a text, there is a longest one. -/
theorem Longest.exists_of_written {text rest : List Char} {n : Numeral} (h : Numeral.Written text n) :
    ∃ text' rest' n', Longest (text ++ rest) text' rest' n' := by
  obtain ⟨n', rest', hread, -⟩ := longest?_reaches h rest
  obtain ⟨text', hlongest⟩ := longest?_eq_some_iff.1 hread
  exact ⟨text', rest', n', hlongest⟩

/-! ## What becomes of it -/

theorem filter_of_not_inRange {n : Numeral} (h : ¬ n.inRange) (rest : List Char) :
    (some (n, rest)).filter (fun found => found.1.inRange) = none :=
  Option.filter_some_neg (Bool.eq_false_iff.2 h)

/-- Where no reader finds a numeral, none is read. -/
theorem read?_of_longest?_none {cs : List Char} (h : longest? cs = none) : read? cs = none := by
  obtain ⟨hspecial, hothers⟩ := Option.or_eq_none_iff.1 h
  obtain ⟨hhexadecimal, hdecimal⟩ := Option.or_eq_none_iff.1 hothers
  rw [read?_eq, hspecial, hhexadecimal, hdecimal]
  rfl

/-- **Nothing is read in the place of a decimal numeral out of range**: no other reader found
anything. -/
theorem read?_of_decimal {cs rest : List Char} {negative : Bool} {m : Mantissa} {e : Int}
    (h : longest? cs = some (.decimal negative m e, rest))
    (hout : ¬ (Numeral.decimal negative m e).inRange) : read? cs = none := by
  unfold longest? at h
  rw [read?_eq]
  rcases Option.or_eq_some_iff.1 h with h | ⟨hspecial, h⟩
  · obtain ⟨_, -, -, hspecial⟩ := special?_written h
    cases hspecial
  · rcases Option.or_eq_some_iff.1 h with h | ⟨hhexadecimal, h⟩
    · obtain ⟨_, _, _, heq⟩ := eq_hexadecimal_of_hexadecimal? h
      cases heq
    · rw [hspecial, hhexadecimal, h, Option.filter_none, Option.none_or, Option.none_or,
        filter_of_not_inRange hout]

/-- **The zero that it begins with is read in the place of a hexadecimal numeral out of range**: the
decimal reader takes it, and zero is in range. -/
theorem read?_of_hexadecimal {cs rest : List Char} {negative : Bool} {m : Mantissa} {e : Int}
    (h : longest? cs = some (.hexadecimal negative m e, rest))
    (hout : ¬ (Numeral.hexadecimal negative m e).inRange) :
    ∃ s after, WrittenSign s negative ∧ cs = s ++ '0' :: after ∧
      read? cs = some (.decimal negative ⟨['0'], []⟩ 0, after) := by
  obtain ⟨text, rfl, hn⟩ := longest?_written h
  cases hn with
  | @hexadecimal s u text tail x _ _ _ hs hx hu hm he =>
    have hassoc : s ++ '0' :: x :: (u ++ (text ++ tail)) ++ rest =
        s ++ '0' :: x :: (u ++ (text ++ tail) ++ rest) := by
      rw [List.append_assoc]
      rfl
    rw [hassoc] at h ⊢
    refine ⟨s, _, hs, rfl, ?_⟩
    have hzero : decimal? (s ++ '0' :: x :: (u ++ (text ++ tail) ++ rest)) =
        some (.decimal negative ⟨['0'], []⟩ 0, x :: (u ++ (text ++ tail) ++ rest)) :=
      decimal?_of_zero hs hx
    have hspecial : special? (s ++ '0' :: x :: (u ++ (text ++ tail) ++ rest)) = none :=
      special?_of_startsHexadecimal ⟨s, negative, x, _, hs, hx, rfl⟩
    -- the decimal reader finds the zero, so it was the hexadecimal one that found the numeral
    have hhexadecimal : hexadecimal? (s ++ '0' :: x :: (u ++ (text ++ tail) ++ rest)) =
        some (.hexadecimal negative m e, rest) := by
      unfold longest? at h
      rw [hspecial, Option.none_or, hzero] at h
      rcases Option.or_eq_some_iff.1 h with h | ⟨-, h⟩
      · exact h
      · cases h
    have hin : (Numeral.decimal negative ⟨['0'], []⟩ 0).inRange := by
      cases negative <;> rfl
    rw [read?_eq, hspecial, hhexadecimal, hzero, filter_of_not_inRange hout, Option.none_or,
      Option.none_or, filter_of_inRange hin]

theorem value_zero (negative : Bool) :
    (Numeral.decimal negative ⟨['0'], []⟩ 0).value = .signed negative (.finite 0) := by
  cases negative <;> rfl

/-- **The longest numeral decides.** Where none stands at the start of a text, nothing is read. Else
there is a longest one: it is read whole if it is special or in range. A decimal one out of range is
not read at all, not even in part; of a hexadecimal one the zero that it begins with is read, with
its sign. So the texts that are numerals are those that write one that is special or in range. -/
theorem binary64?_longest (cs : List Char) :
    ((∀ text n, text <+: cs → ¬ Numeral.Written text n) → binary64? cs = none) ∧
    (∀ text n, text <+: cs → Numeral.Written text n →
      ∃ longest rest n', Longest cs longest rest n') ∧
    (∀ text rest n, Longest cs text rest n →
      (n.isSpecial ∨ n.value.isFinite → binary64? cs = some (n.value, rest)) ∧
      (∀ negative m e, n = .decimal negative m e → ¬ n.value.isFinite → binary64? cs = none) ∧
      (∀ negative m e, n = .hexadecimal negative m e → ¬ n.value.isFinite →
        ∃ s after, WrittenSign s negative ∧ cs = s ++ '0' :: after ∧
          binary64? cs = some (.signed negative (.finite 0), after))) ∧
    (isNumeric cs ↔ ∃ n, Numeral.Written cs n ∧ (n.isSpecial ∨ n.value.isFinite)) := by
  refine ⟨?_, ?_, ?_, isNumeric_iff⟩
  · intro hnone
    have hlongest : longest? cs = none := by
      rw [Option.eq_none_iff_forall_ne_some]
      rintro ⟨n, rest⟩ hread
      obtain ⟨text, rfl, hn⟩ := longest?_written hread
      exact hnone text n (List.prefix_append text rest) hn
    rw [binary64?, read?_of_longest?_none hlongest]
    rfl
  · rintro text n ⟨rest, rfl⟩ hn
    exact Longest.exists_of_written hn
  · intro text rest n hlongest
    have hread := longest?_eq_some_iff.2 ⟨text, hlongest⟩
    refine ⟨?_, ?_, ?_⟩
    · intro hn
      rw [binary64?, read?_of_longest? hread hn]
      rfl
    · rintro negative m e rfl hout
      rw [binary64?, read?_of_decimal hread hout]
      rfl
    · rintro negative m e rfl hout
      obtain ⟨s, after, hs, happend, hzero⟩ := read?_of_hexadecimal hread hout
      refine ⟨s, after, hs, happend, ?_⟩
      rw [binary64?, hzero, ← value_zero negative]
      rfl

/-- A hexadecimal numeral far out of range, with something after it: only its zero is read. -/
theorem binary64?_hexadecimal_beyond_range : ∃ s after, WrittenSign s true ∧
    "-0x_1p2_000)".toList = s ++ '0' :: after ∧
      binary64? "-0x_1p2_000)".toList = some (.signed true (.finite 0), after) := by
  have hread : longest? "-0x_1p2_000)".toList =
      some (.hexadecimal true ⟨['1'], []⟩ 2000, [')']) := by decide
  have hout : ¬ (Numeral.hexadecimal true ⟨['1'], []⟩ 2000).value.isFinite := by decide +kernel
  obtain ⟨text, hlongest⟩ := longest?_eq_some_iff.1 hread
  exact ((binary64?_longest "-0x_1p2_000)".toList).2.2.1 text _ _ hlongest).2.2 true _ 2000 rfl hout

end LabelQuery.Number
