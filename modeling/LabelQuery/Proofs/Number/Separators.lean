import LabelQuery.Proofs.Number.Numeric

/-!
# Number — underscores in numerals

An underscore in a numeral counts for nothing. Whether the underscores are taken out, or one more is
put where the grammar allows one, the text writes the same numeral, and so it is read as the same
value.

* `withoutUnderscores`, `Numeral.Written.withoutUnderscores` — all underscores taken out.
* `Separated`, `WrittenGroup.separated` — one underscore more between two characters of a kind. In a
  group it stands between two digits.
* `SeparatorAdded`, `Numeral.Written.separatorAdded` — one underscore more in a numeral.
* `binary64?_separators` — none of this changes the value.
-/

namespace LabelQuery.Number

open Text Numeral

variable {p q : Char → Bool}

/-! ## Underscores taken out -/

def withoutUnderscores (cs : List Char) : List Char :=
  cs.filter (· != '_')

@[simp] theorem withoutUnderscores_underscore (cs : List Char) :
    withoutUnderscores ('_' :: cs) = withoutUnderscores cs := rfl

theorem withoutUnderscores_cons {c : Char} (hc : c ≠ '_') (cs : List Char) :
    withoutUnderscores (c :: cs) = c :: withoutUnderscores cs :=
  List.filter_cons_of_pos (bne_iff_ne.2 hc)

@[simp] theorem withoutUnderscores_append (xs ys : List Char) :
    withoutUnderscores (xs ++ ys) = withoutUnderscores xs ++ withoutUnderscores ys :=
  List.filter_append xs ys

theorem ne_underscore_of_toLower {c d : Char} (h : c.toLower = d) (hd : d ≠ '_') : c ≠ '_' := by
  rintro rfl
  exact hd h.symm

theorem WrittenSign.withoutUnderscores {s : List Char} {negative : Bool} (h : WrittenSign s negative) :
    withoutUnderscores s = s := by
  cases h <;> rfl

/-- Without its underscores, a group is its digits. Induction on the group. -/
theorem WrittenGroup.withoutUnderscores_eq (hp : p '_' = false) {text ds : List Char}
    (h : WrittenGroup p text ds) : withoutUnderscores text = ds := by
  induction h with
  | last hd => exact withoutUnderscores_cons (ne_underscore hp hd) []
  | digit hd _ ih => rw [withoutUnderscores_cons (ne_underscore hp hd), ih]
  | underscore hd _ ih =>
    rw [withoutUnderscores_cons (ne_underscore hp hd), withoutUnderscores_underscore, ih]

theorem WrittenGroup.withoutUnderscores (hp : p '_' = false) {text ds : List Char}
    (h : WrittenGroup p text ds) : WrittenGroup p (withoutUnderscores text) ds := by
  rw [h.withoutUnderscores_eq hp]
  exact .of_digits h.ne_nil h.digits

/-- Without its underscores, a mantissa is the same mantissa, in the same form. -/
theorem Mantissa.Written.withoutUnderscores (hp : p '_' = false) {text : List Char} {m : Mantissa}
    (h : m.Written p text) : m.Written p (withoutUnderscores text) := by
  have hpoint : '.' ≠ '_' := by decide
  cases h with
  | whole h => exact .whole (h.withoutUnderscores hp)
  | point h =>
    rw [withoutUnderscores_append, withoutUnderscores_cons hpoint]
    exact .point (h.withoutUnderscores hp)
  | both h h' =>
    rw [withoutUnderscores_append, withoutUnderscores_cons hpoint]
    exact .both (h.withoutUnderscores hp) (h'.withoutUnderscores hp)
  | fraction h' =>
    rw [withoutUnderscores_cons hpoint]
    exact .fraction (h'.withoutUnderscores hp)

/-- Without its underscores, an exponent is the same exponent. -/
theorem WrittenExponent.withoutUnderscores {mark : Char} (hmark : mark ≠ '_') {text : List Char}
    {e : Int} (h : WrittenExponent mark text e) :
    WrittenExponent mark (withoutUnderscores text) e := by
  cases h with
  | intro hc hs h =>
    rw [withoutUnderscores_cons (ne_underscore_of_toLower hc hmark), withoutUnderscores_append,
      hs.withoutUnderscores]
    exact .intro hc hs (h.withoutUnderscores rfl)

/-- There are no underscores in a word, in whatever case it is written. -/
theorem WrittenWord.withoutUnderscores {word text : List Char} (hword : '_' ∉ word)
    (h : WrittenWord word text) : withoutUnderscores text = text := by
  apply List.filter_eq_self.2
  intro c hc
  rw [bne_iff_ne]
  rintro rfl
  apply hword
  rw [← h]
  exact List.mem_map_of_mem hc

/-- **Without its underscores, a numeral is the same numeral.** One case for each form; the
underscore after `0x` may be left out. -/
theorem Numeral.Written.withoutUnderscores {cs : List Char} {n : Numeral} (h : Numeral.Written cs n) :
    Numeral.Written (withoutUnderscores cs) n := by
  cases h with
  | infinity hs h =>
    have hword := h.elim (WrittenWord.withoutUnderscores (by decide))
      (WrittenWord.withoutUnderscores (by decide))
    rw [withoutUnderscores_append, hs.withoutUnderscores, hword]
    exact .infinity hs h
  | nan h =>
    rw [h.withoutUnderscores (by decide)]
    exact .nan h
  | decimal hs hm he =>
    rw [withoutUnderscores_append, withoutUnderscores_append, hs.withoutUnderscores]
    refine .decimal hs (hm.withoutUnderscores rfl) ?_
    rcases he with ⟨rfl, rfl⟩ | he
    · exact .inl ⟨rfl, rfl⟩
    · exact .inr (he.withoutUnderscores (by decide))
  | @hexadecimal _ u _ _ _ _ _ _ hs hx hu hm he =>
    -- whether an underscore follows `0x` or not, none is left
    have hnone : Number.withoutUnderscores u = [] := by
      rcases hu with rfl | ⟨rfl, -⟩ <;> rfl
    rw [withoutUnderscores_append, hs.withoutUnderscores, withoutUnderscores_cons (by decide),
      withoutUnderscores_cons (ne_underscore_of_toLower hx (by decide)), withoutUnderscores_append,
      withoutUnderscores_append, hnone]
    exact .hexadecimal hs hx (.inl rfl) (hm.withoutUnderscores rfl) (he.withoutUnderscores (by decide))

/-! ## One underscore more -/

/-- One underscore more, between two `q`-characters next to each other. -/
inductive Separated (q : Char → Bool) : List Char → List Char → Prop where
  | here {c d : Char} {cs : List Char} (hc : q c) (hd : q d) :
      Separated q (c :: d :: cs) (c :: '_' :: d :: cs)
  | there {c : Char} {cs cs' : List Char} (h : Separated q cs cs') : Separated q (c :: cs) (c :: cs')

/-- Where a text begins with another character, the underscore stands after it. -/
theorem Separated.tail {c : Char} {cs zs : List Char} (h : Separated q (c :: cs) zs)
    (hc : q c = false) : ∃ cs', Separated q cs cs' ∧ zs = c :: cs' := by
  cases h with
  | here hc' _ =>
    rw [hc] at hc'
    cases hc'
  | there h => exact ⟨_, h, rfl⟩

/-- Where a text begins with a sign, the underscore stands after it. -/
theorem Separated.of_sign {s cs zs : List Char} {negative : Bool} (h : Separated q (s ++ cs) zs)
    (hs : WrittenSign s negative) (hq : ∀ c, q c → isSign c = false) :
    ∃ cs', Separated q cs cs' ∧ zs = s ++ cs' := by
  have hsign : ∀ c, isSign c → q c = false := by
    intro c hc
    rw [Bool.eq_false_iff]
    intro hqc
    rw [hq c hqc] at hc
    cases hc
  cases hs with
  | none => exact ⟨zs, h, rfl⟩
  | plus => exact h.tail (hsign '+' rfl)
  | minus => exact h.tail (hsign '-' rfl)

/-- Where the second of two texts begins with another character, the underscore stands in one of
them. Induction on the first: at its last character the next one would be the first of the second
text. -/
theorem Separated.of_append {xs ys zs : List Char} (h : Separated q (xs ++ ys) zs)
    (hys : Stops q ys) :
    (∃ xs', Separated q xs xs' ∧ zs = xs' ++ ys) ∨ ∃ ys', Separated q ys ys' ∧ zs = xs ++ ys' := by
  induction xs generalizing zs with
  | nil => exact .inr ⟨zs, h, rfl⟩
  | cons c xs ih =>
    rw [List.cons_append] at h
    generalize htail : xs ++ ys = tail at h
    cases h with
    | @here _ d cs hc hd =>
      cases xs with
      | nil =>
        rw [List.nil_append] at htail
        -- the underscore would stand between the last character and the second text
        rw [htail, stops_cons, hd] at hys
        cases hys
      | cons e xs =>
        cases htail
        -- it stands between two characters of the first text
        exact .inl ⟨c :: '_' :: d :: xs, .here hc hd, rfl⟩
    | there h =>
      subst htail
      rcases ih h with ⟨xs', hxs, rfl⟩ | ⟨ys', hys, rfl⟩
      · exact .inl ⟨c :: xs', .there hxs, rfl⟩
      · exact .inr ⟨ys', hys, rfl⟩

/-- **A group keeps its digits.** Of two characters of a group next to each other, neither of them
an underscore, both are digits. Induction on the group. -/
theorem WrittenGroup.separated {text text' ds : List Char} (h : WrittenGroup p text ds)
    (hq : q '_' = false) (hsep : Separated q text text') : WrittenGroup p text' ds := by
  induction h generalizing text' with
  | last hd =>
    cases hsep with
    | there hsep => cases hsep
  | digit hd h ih =>
    cases hsep with
    | here _ _ => exact .underscore hd h
    | there hsep => exact .digit hd (ih hsep)
  | underscore hd h ih =>
    cases hsep with
    | here _ hunder =>
      -- an underscore is no character to stand next to
      rw [hq] at hunder
      cases hunder
    | there hsep =>
      -- it stands after the one that is there already
      obtain ⟨cs', hrest, rfl⟩ := hsep.tail hq
      exact .underscore hd (ih hrest)

/-- A mantissa keeps its digits and its point. The underscore stands in one of its groups, since the
point is no digit. -/
theorem Mantissa.Written.separated {text text' : List Char} {m : Mantissa} (h : m.Written p text)
    (hq : q '_' = false) (hq' : q '.' = false) (hsep : Separated q text text') :
    m.Written p text' := by
  -- the point separates the two groups
  have hpoint : ∀ cs, Stops q ('.' :: cs) := fun cs => (stops_cons _ _ cs).2 hq'
  cases h with
  | whole h => exact .whole (h.separated hq hsep)
  | point h =>
    rcases hsep.of_append (hpoint []) with ⟨text', hleft, rfl⟩ | ⟨zs, hright, rfl⟩
    · exact .point (h.separated hq hleft)
    · obtain ⟨cs', hnil, rfl⟩ := hright.tail hq'
      cases hnil
  | both h h' =>
    rcases hsep.of_append (hpoint _) with ⟨text', hleft, rfl⟩ | ⟨zs, hright, rfl⟩
    · exact .both (h.separated hq hleft) h'
    · obtain ⟨cs', hfraction, rfl⟩ := hright.tail hq'
      exact .both h (h'.separated hq hfraction)
  | fraction h' =>
    obtain ⟨cs', hfraction, rfl⟩ := hsep.tail hq'
    exact .fraction (h'.separated hq hfraction)

/-- An exponent keeps its number: the underscore stands in its group of digits, after the mark and
the sign. -/
theorem WrittenExponent.separated {mark : Char} {text text' : List Char} {e : Int}
    (h : WrittenExponent mark text e) (hmark : ∀ c : Char, c.toLower = mark → q c = false)
    (hq : q '_' = false) (hq' : ∀ c, q c → isSign c = false) (hsep : Separated q text text') :
    WrittenExponent mark text' e := by
  cases h with
  | intro hc hs h =>
    obtain ⟨cs', htail, rfl⟩ := hsep.tail (hmark _ hc)
    obtain ⟨ds', hdigits, rfl⟩ := htail.of_sign hs hq'
    exact .intro hc hs (h.separated hq hdigits)

/-! ## Numerals with one underscore more -/

/-- The characters of the digit runs in a numeral of the same form. -/
def Numeral.isDigit : Numeral → Char → Bool
  | .infinity _ | .nan => fun _ => false
  | .decimal .. => isDecimal
  | .hexadecimal .. => isHex

/-- The second text is the first, which writes the numeral, with one underscore more: between two
digits next to each other, or between `0x` and a digit. -/
inductive SeparatorAdded (n : Numeral) : List Char → List Char → Prop where
  | between {cs cs' : List Char} (hn : Numeral.Written cs n) (h : Separated n.isDigit cs cs') :
      SeparatorAdded n cs cs'
  | start {s cs : List Char} {x d : Char} {negative : Bool}
      (hn : Numeral.Written (s ++ '0' :: x :: d :: cs) n) (hs : WrittenSign s negative)
      (hx : x.toLower = 'x') (hd : isHex d) :
      SeparatorAdded n (s ++ '0' :: x :: d :: cs) (s ++ '0' :: x :: '_' :: d :: cs)

/-- Without characters to stand between, no underscore can be added. Special numerals have none. -/
theorem not_separated {cs zs : List Char} (hq : ∀ c, q c = false) : ¬ Separated q cs zs := by
  intro h
  induction h with
  | @here c _ _ hc _ =>
    rw [hq c] at hc
    cases hc
  | there _ ih => exact ih

/-- The `x` of `0x` is no digit, so the underscore stands after it. -/
theorem Separated.of_start {x : Char} {cs zs : List Char} (hx : x.toLower = 'x')
    (h : Separated isHex ('0' :: x :: cs) zs) :
    ∃ cs', Separated isHex cs cs' ∧ zs = '0' :: x :: cs' := by
  have hdigit : isHex x = false := by
    rcases eq_or_eq_of_toLower hx with rfl | rfl <;> decide
  cases h with
  | here _ hd =>
    rw [hdigit] at hd
    cases hd
  | there h =>
    obtain ⟨cs', hrest, rfl⟩ := h.tail hdigit
    exact ⟨cs', hrest, rfl⟩

/-- **A numeral with one underscore more between two of its digits is the same numeral.** One case
for each form. The underscore stands after the sign, and then in the mantissa or in the exponent,
whose mark is no digit. -/
theorem Numeral.Written.separated {cs cs' : List Char} {n : Numeral} (h : Numeral.Written cs n)
    (hsep : Separated n.isDigit cs cs') : Numeral.Written cs' n := by
  cases h with
  | infinity _ _ => exact absurd hsep (not_separated fun _ => rfl)
  | nan _ => exact absurd hsep (not_separated fun _ => rfl)
  | @decimal s text tail negative m e hs hm he =>
    have hmark : ∀ c : Char, c.toLower = 'e' → isDecimal c = false := by
      intro c hc
      rcases eq_or_eq_of_toLower hc with rfl | rfl <;> decide
    have htail : Stops isDecimal tail := by
      rcases he with ⟨rfl, -⟩ | he
      · exact stops_nil _
      · simpa using he.stops hmark []
    obtain ⟨rest, hrest, rfl⟩ := hsep.of_sign hs fun _ => isSign_eq_false
    rcases hrest.of_append htail with ⟨text', hleft, rfl⟩ | ⟨tail', hright, rfl⟩
    · exact .decimal hs (hm.separated rfl rfl hleft) he
    · refine .decimal hs hm ?_
      rcases he with ⟨rfl, -⟩ | he
      · cases hright
      · exact .inr (he.separated hmark rfl (fun _ => isSign_eq_false) hright)
  | @hexadecimal s u text tail x negative m e hs hx hu hm he =>
    have hmark : ∀ c : Char, c.toLower = 'p' → isHex c = false := by
      intro c hc
      rcases eq_or_eq_of_toLower hc with rfl | rfl <;> decide
    have htail : Stops isHex tail := by
      simpa using he.stops hmark []
    obtain ⟨rest, hstart, rfl⟩ := hsep.of_sign hs fun _ => isSign_eq_false_of_isHex
    obtain ⟨rest, hdigits, rfl⟩ := Separated.of_start hx hstart
    -- after `0x` it stands behind the underscore that may be there
    have hunder : ∃ rest', Separated isHex (text ++ tail) rest' ∧ rest = u ++ rest' := by
      rcases hu with rfl | ⟨rfl, -⟩
      · exact ⟨rest, hdigits, rfl⟩
      · exact hdigits.tail rfl
    obtain ⟨rest, hrest, rfl⟩ := hunder
    rcases hrest.of_append htail with ⟨text', hleft, rfl⟩ | ⟨tail', hright, rfl⟩
    · exact .hexadecimal hs hx hu (hm.separated rfl rfl hleft) he
    · exact .hexadecimal hs hx hu hm
        (he.separated hmark rfl (fun _ => isSign_eq_false_of_isHex) hright)

/-- An underscore may stand between `0x` and a digit. The numeral has to be written in the
hexadecimal form, and there the digit is the first one of its mantissa. -/
theorem Numeral.Written.separated_start {s cs : List Char} {x d : Char} {negative : Bool} {n : Numeral}
    (h : Numeral.Written (s ++ '0' :: x :: d :: cs) n) (hs : WrittenSign s negative)
    (hx : x.toLower = 'x') (hd : isHex d) : Numeral.Written (s ++ '0' :: x :: '_' :: d :: cs) n := by
  obtain ⟨negative', m, e, rfl⟩ :=
    StartsHexadecimal.eq_hexadecimal ⟨s, negative, x, d :: cs, hs, hx, rfl⟩ h
  generalize hwhole : s ++ '0' :: x :: d :: cs = whole at h
  cases h with
  | @hexadecimal s' u text tail x' _ _ _ hs' hx' hu hm he =>
    -- the text has one sign only, so the two ways to write it agree from the zero on
    have hsame := congrArg sign hwhole
    rw [sign_of_startsHexadecimal hs, sign_of_startsHexadecimal hs'] at hsame
    obtain ⟨-, htail⟩ := Prod.mk.inj hsame
    rw [htail] at hwhole
    have hsign : s = s' := List.append_cancel_right hwhole
    obtain ⟨rfl, hdigits⟩ := List.cons.inj (List.cons.inj htail).2
    rcases hu with rfl | ⟨rfl, -⟩
    · rw [List.nil_append] at hdigits
      have hne : m.whole ≠ [] := hm.whole_of_digit (by decide) ⟨d, by rw [← hdigits]; rfl, hd⟩
      rw [hsign, hdigits]
      exact .hexadecimal hs' hx' (.inr ⟨rfl, hne⟩) hm he
    · -- the digit would be an underscore
      obtain ⟨rfl, -⟩ := List.cons.inj hdigits
      cases hd

/-- Before and after, the text writes the numeral. -/
theorem Numeral.Written.separatorAdded {cs cs' : List Char} {n : Numeral}
    (h : SeparatorAdded n cs cs') : Numeral.Written cs n ∧ Numeral.Written cs' n := by
  cases h with
  | between hn h => exact ⟨hn, hn.separated h⟩
  | start hn hs hx hd => exact ⟨hn, hn.separated_start hs hx hd⟩

/-! ## Values -/

/-- A text that writes a numeral, special or in range, is numeric and is read as its value. -/
theorem binary64?_written {cs : List Char} {n : Numeral} (h : Numeral.Written cs n)
    (hn : n.isSpecial ∨ n.inRange) : isNumeric cs ∧ binary64? cs = some (n.value, []) := by
  constructor
  · exact isNumeric_iff.2 ⟨n, h, hn⟩
  · rw [binary64?, read?_whole h hn]
    rfl

/-- **Underscores do not change a number.** With all of them taken out, a text that is a numeral is
one still, of the same value; and so it is with one more put between two digits next to each other,
or between `0x` and a digit. -/
theorem binary64?_separators {cs : List Char} (h : isNumeric cs) :
    (isNumeric (withoutUnderscores cs) ∧ binary64? (withoutUnderscores cs) = binary64? cs) ∧
      ∀ n cs', SeparatorAdded n cs cs' → isNumeric cs' ∧ binary64? cs' = binary64? cs := by
  obtain ⟨n, hn, hrange⟩ := isNumeric_iff.1 h
  obtain ⟨-, hvalue⟩ := binary64?_written hn hrange
  rw [hvalue]
  constructor
  · exact binary64?_written hn.withoutUnderscores hrange
  · intro n' cs' hadded
    obtain ⟨hn', hadded⟩ := Numeral.Written.separatorAdded hadded
    -- the numeral of the longer text is that of the shorter one
    rw [hn'.unique hn] at hadded
    exact binary64?_written hadded hrange

/-- One underscore taken out, one put between two digits, and one put after `0x`. -/
theorem binary64?_separators_hexadecimal :
    isNumeric "0x1f.p1_0".toList ∧
      binary64? "0x1f.p10".toList = binary64? "0x1f.p1_0".toList ∧
      binary64? "0x1_f.p1_0".toList = binary64? "0x1f.p1_0".toList ∧
      binary64? "0x_1f.p1_0".toList = binary64? "0x1f.p1_0".toList := by
  have hgroup : WrittenGroup isHex "1f".toList "1f".toList := .digit rfl (.last rfl)
  have hwritten : Numeral.Written "0x1f.p1_0".toList (.hexadecimal false ⟨['1', 'f'], []⟩ 10) :=
    .hexadecimal .none (show 'x'.toLower = 'x' from rfl) (.inl rfl) (.point hgroup)
      (.intro (show 'p'.toLower = 'p' from rfl) .none (.underscore rfl (.last rfl)))
  have hnumeric : isNumeric "0x1f.p1_0".toList :=
    isNumeric_iff.2 ⟨_, hwritten, .inr (by decide +kernel)⟩
  obtain ⟨⟨-, hout⟩, hadded⟩ := binary64?_separators hnumeric
  exact ⟨hnumeric, hout, (hadded _ _ (.between hwritten (.there (.there (.here rfl rfl))))).2,
    (hadded _ _ (.start hwritten .none (show 'x'.toLower = 'x' from rfl) rfl)).2⟩

end LabelQuery.Number
