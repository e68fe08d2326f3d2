import LabelQuery.Label.Basic
import LabelQuery.Proofs.Number.Parts
import LabelQuery.Proofs.Number.Reading
import LabelQuery.Proofs.Text.Word
import LabelQuery.Settings.Environment

/-!
# Settings — words that are more than texts

A variable of the environment holds a value without quotes, and what kind of value it is shows in
its looks. So a word of letters, digits, `-`, `_` and `.` need not be a text: it may be the name of
a truth value, a whole number, or a number with a point.

* `IsIdentifier` — such words, as they name clusters.
* `TypedWord` — the words among them that are no texts, and what they are.
* `ofText_of_typedWord`, `ofText_of_not_typedWord` — the value of an identifier.
-/

namespace LabelQuery.Settings

open Text Number Label

/-- A word of letters, digits, `-`, `_` and `.` that begins and ends with a letter or digit. -/
structure IsIdentifier (cs : List Char) : Prop where
  chars : ∀ c ∈ cs, isNameChar c
  first : ∃ c ∈ cs.head?, c.isAlphanum
  last : ∃ c ∈ cs.getLast?, c.isAlphanum

/-- A word that writes a truth value or a number, and this value. -/
inductive TypedWord : List Char → Value → Prop where
  | true : TypedWord "true".toList (.bool true)
  | false : TypedWord "false".toList (.bool false)
  | natural {ds : List Char} (hds : IsDigits ds) (hrange : ofDigits 10 ds < Nat.pow 2 64) :
      TypedWord ds (.natural (ofDigits 10 ds))
  | float {cs : List Char} {negative : Bool} {m : Mantissa} {e : Int}
      (h : Numeral.Written cs (.decimal negative m e)) (hpoint : '.' ∈ cs) (hplain : '_' ∉ cs) :
      TypedWord cs (.float (.signed negative (decimalMagnitude m e)))

/-! ## The characters of identifiers -/

/-- The characters of names lie between the hyphen and the last small letter. -/
theorem toNat_of_isNameChar {c : Char} (h : isNameChar c) : 45 ≤ c.toNat ∧ c.toNat ≤ 122 := by
  have halphanum : c.isAlphanum = (c.isAlpha || c.isDigit) := rfl
  simp only [isNameChar, halphanum, Bool.or_eq_true, isAlpha_iff, isDigit_iff, beq_iff_eq] at h
  rcases h with ((h | rfl) | rfl) | rfl
  · omega
  all_goals decide

/-- No white space stands in a name, also outside ASCII. -/
theorem isSpace_eq_false_of_isNameChar {c : Char} (h : isNameChar c) : isSpace c = false := by
  obtain ⟨hlow, hhigh⟩ := toNat_of_isNameChar h
  rw [← Bool.not_eq_true]
  intro hspace
  simp only [isSpace, Bool.or_eq_true, Bool.and_eq_true, decide_eq_true_eq, beq_iff_eq] at hspace
  omega

/-- Nothing that ends a bare value stands in a name. -/
theorem isDelimiter_eq_false_of_isNameChar {c : Char} (h : isNameChar c) :
    isDelimiter c = false := by
  rw [← Bool.not_eq_true]
  intro hdelimiter
  simp only [isDelimiter, Bool.or_eq_true, beq_iff_eq] at hdelimiter
  rcases hdelimiter with (((rfl | rfl) | rfl) | rfl) | rfl <;> exact absurd h (by decide)

theorem isSign_eq_false_of_isAlphanum {c : Char} (h : c.isAlphanum) : isSign c = false := by
  rw [← Bool.not_eq_true]
  intro hsign
  simp only [isSign, Bool.or_eq_true, beq_iff_eq] at hsign
  rcases hsign with rfl | rfl <;> exact absurd h (by decide)

section

variable {cs : List Char} (h : IsIdentifier cs)
include h

theorem IsIdentifier.stops {p : Char → Bool} (hp : ∀ c, isNameChar c → p c = false) : Stops p cs :=
  fun c hc => hp c (h.chars c (List.mem_of_mem_head? hc))

/-- An identifier begins with no sign. A hyphen may stand in it, but not in front. -/
theorem IsIdentifier.stops_isSign : Stops isSign cs := by
  obtain ⟨c, hc, halnum⟩ := h.first
  intro d hd
  rw [Option.mem_unique hd hc]
  exact isSign_eq_false_of_isAlphanum halnum

theorem IsIdentifier.trim_eq : trim cs = cs := by
  refine trim_of_stops (h.stops fun _ => isSpace_eq_false_of_isNameChar) fun c hc => ?_
  rw [List.head?_reverse] at hc
  exact isSpace_eq_false_of_isNameChar (h.chars c (List.mem_of_getLast? hc))

/-- An identifier is taken whole for a bare value. -/
theorem IsIdentifier.bare_eq : bare cs = (bareValue cs, []) := by
  have hword : ∀ c ∈ cs, (!isDelimiter c) = true := fun c hc => by
    rw [isDelimiter_eq_false_of_isNameChar (h.chars c hc)]
    rfl
  have htake := takeWhile_append hword (stops_nil _)
  have hdrop := dropWhile_append hword (stops_nil _)
  rw [List.append_nil] at htake hdrop
  rw [bare, htake, hdrop, h.trim_eq]

end

/-! ## Numbers -/

/-- A text is read whole as a decimal numeral exactly if it writes one. -/
theorem decimal?_whole_iff {cs : List Char} {n : Numeral} : Numeral.decimal? cs = some (n, []) ↔
    ∃ negative m e, n = .decimal negative m e ∧ Numeral.Written cs (.decimal negative m e) := by
  constructor
  · intro h
    obtain ⟨negative, m, e, rfl⟩ := eq_decimal_of_decimal? h
    obtain ⟨text, rfl, htext⟩ := decimal?_written h
    rw [List.append_nil]
    exact ⟨negative, m, e, rfl, htext⟩
  · rintro ⟨negative, m, e, rfl, h⟩
    cases h with
    | decimal hs hm he => exact decimal?_whole hs hm he

/-- A number with a point is a decimal numeral that holds a point and no underscore, and its value
is rounded like that of a numeral. -/
theorem float?_eq_some_iff {cs : List Char} {x : Binary64} : float? cs = some x ↔
    ('.' ∈ cs ∧ '_' ∉ cs) ∧ ∃ negative m e, Numeral.Written cs (.decimal negative m e) ∧
      x = .signed negative (decimalMagnitude m e) := by
  unfold float?
  split
  · next hcs =>
    constructor
    · intro h
      split at h
      · next n hn =>
        cases h
        obtain ⟨negative, m, e, rfl, hwritten⟩ := decimal?_whole_iff.1 hn
        exact ⟨hcs, negative, m, e, hwritten, rfl⟩
      · cases h
    · -- a numeral that is written is the one that is read
      rintro ⟨-, negative, m, e, hwritten, rfl⟩
      rw [decimal?_whole_iff.2 ⟨negative, m, e, rfl, hwritten⟩]
      rfl
  · next hcs => exact ⟨nofun, fun h => absurd h.1 hcs⟩

/-- Without a sign, digits are a whole number, and nothing else is. -/
theorem int?_of_stops {cs : List Char} (h : Stops isSign cs) :
    int? cs = if IsDigits cs then some (ofDigits 10 cs : Int) else none := by
  have hsign : sign cs = (false, cs) := sign_append .none h
  rw [int?, hsign]
  rfl

/-- Without a sign, digits are a whole number that is not negative, if it is below 2 to the power of
64. -/
theorem nat64?_eq_some_iff {cs : List Char} (h : Stops isSign cs) {n : Nat} :
    nat64? cs = some n ↔ (IsDigits cs ∧ n < Nat.pow 2 64) ∧ n = ofDigits 10 cs := by
  have hsign : sign cs = (false, cs) := sign_append .none h
  -- there is no plus sign to take off first
  have hnat : nat64? cs = ((int? cs).map Int.toNat).filter (· < Nat.pow 2 64) := by
    rw [nat64?, hsign]
    rfl
  rw [hnat, int?_of_stops h, Option.filter_eq_some_iff]
  by_cases hds : IsDigits cs
  · rw [if_pos hds, Option.map_some, Int.toNat_natCast, Option.some.injEq, decide_eq_true_eq]
    constructor
    · rintro ⟨rfl, hrange⟩
      exact ⟨⟨hds, hrange⟩, rfl⟩
    · rintro ⟨⟨-, hrange⟩, rfl⟩
      exact ⟨rfl, hrange⟩
  · rw [if_neg hds]
    exact ⟨nofun, fun h => absurd h.1.1 hds⟩

/-- What is no whole number without a sign is none with one, if there is no sign. So the last of the
three readings of a bare word finds nothing new in an identifier. -/
theorem int64?_eq_none {cs : List Char} (h : Stops isSign cs) (hnat : nat64? cs = none) :
    int64? cs = none := by
  rw [Option.eq_none_iff_forall_ne_some]
  intro n hn
  obtain ⟨hint, hrange⟩ := Option.filter_eq_some_iff.1 hn
  rw [int?_of_stops h] at hint
  split at hint
  · next hds =>
    cases hint
    -- the digits are below 2 ^ 63, so they were a number without a sign
    have hlt : ofDigits 10 cs < Nat.pow 2 64 := by
      have hhigh : (ofDigits 10 cs : Int) < Int.pow 2 63 := (of_decide_eq_true hrange).2
      have hpow : Int.pow 2 63 = 2 ^ 63 := rfl
      have hpow' : Nat.pow 2 64 = 2 ^ 64 := rfl
      omega
    rw [(nat64?_eq_some_iff h).2 ⟨⟨hds, hlt⟩, rfl⟩] at hnat
    cases hnat
  · cases hint

/-! ## Bare words -/

/-- Digits in range are a number: they hold no point, so they are not read as one with a point
before. -/
theorem bareValue_of_isDigits {cs : List Char} (hds : IsDigits cs)
    (hrange : ofDigits 10 cs < Nat.pow 2 64) : bareValue cs = .natural (ofDigits 10 cs) := by
  -- a number with a point has a point among its characters
  have hfloat : float? cs = none := by
    rw [Option.eq_none_iff_forall_ne_some]
    intro x hx
    obtain ⟨⟨hpoint, -⟩, -⟩ := float?_eq_some_iff.1 hx
    exact absurd (hds.2 '.' hpoint) (by decide)
  rw [bareValue, hfloat, (nat64?_eq_some_iff hds.stops_isSign).2 ⟨⟨hds, hrange⟩, rfl⟩]

theorem bareValue_of_written {cs : List Char} {negative : Bool} {m : Mantissa} {e : Int}
    (h : Numeral.Written cs (.decimal negative m e)) (hpoint : '.' ∈ cs) (hplain : '_' ∉ cs) :
    bareValue cs = .float (.signed negative (decimalMagnitude m e)) := by
  rw [bareValue, float?_eq_some_iff.2 ⟨⟨hpoint, hplain⟩, negative, m, e, h, rfl⟩]

/-- A word that writes no value of another kind stays a text, since each of the readings would make
it one. -/
theorem bareValue_of_not_typedWord {cs : List Char} (hsign : Stops isSign cs)
    (h : ∀ v, ¬ TypedWord cs v) : bareValue cs = .text (String.ofList cs) := by
  -- each reading that succeeds makes the word a typed one
  have hfloat : float? cs = none := by
    rw [Option.eq_none_iff_forall_ne_some]
    intro x hx
    obtain ⟨⟨hpoint, hplain⟩, negative, m, e, hwritten, -⟩ := float?_eq_some_iff.1 hx
    exact h _ (.float hwritten hpoint hplain)
  have hnat : nat64? cs = none := by
    rw [Option.eq_none_iff_forall_ne_some]
    intro n hn
    obtain ⟨⟨hds, hrange⟩, rfl⟩ := (nat64?_eq_some_iff hsign).1 hn
    exact h _ (.natural hds hrange)
  rw [bareValue, hfloat, hnat, int64?_eq_none hsign hnat]

/-! ## The value of a text -/

/-- A value that begins with no space and is neither a sequence nor a table is read as a scalar,
with the space after it. -/
theorem value?_of_scalar? {cs rest : List Char} {v : Value} (hspace : Stops isAsciiSpace cs)
    (hopen : Stops isDelimiter cs) (h : scalar? cs = some (v, rest)) :
    ∃ hrest, value? cs = some (v, ⟨skipSpace rest, hrest⟩) := by
  -- no space is in front, and neither bracket nor brace
  have hskip : skipSpace cs = cs := dropWhile_of_stops hspace
  rw [value?]
  split
  · next hcs =>
    rw [← hskip, hcs] at hopen
    exact absurd ((stops_cons _ _ _).1 hopen) (by decide)
  · next hcs =>
    rw [← hskip, hcs] at hopen
    exact absurd ((stops_cons _ _ _).1 hopen) (by decide)
  · split
    · next hnone =>
      rw [hskip, h] at hnone
      cases hnone
    · next hsome =>
      rw [hskip, h] at hsome
      cases hsome
      exact ⟨Nat.le_trans (skipSpace_length_le rest) (scalar?_length_le h), rfl⟩

/-- A value that is not all of a text does not count, and the text stays as it is. -/
theorem ofText_of_scalar? {s : String} {v : Value} {rest : List Char}
    (hspace : Stops isAsciiSpace s.toList) (hopen : Stops isDelimiter s.toList)
    (h : scalar? s.toList = some (v, rest)) :
    Value.ofText s = if skipSpace rest = [] then v else .text s := by
  obtain ⟨hrest, hvalue⟩ := value?_of_scalar? hspace hopen h
  unfold Value.ofText
  rw [hvalue]
  generalize skipSpace rest = left at hrest
  cases left with
  | nil => rfl
  | cons c cs => rfl

/-! ## Identifiers -/

/-- A text begins with the name of a truth value. -/
def StartsTruth (cs : List Char) : Prop :=
  "true".toList <+: cs ∨ "false".toList <+: cs

/-- An identifier that does not begin with the name of a truth value is a bare word. -/
theorem scalar?_of_not_startsTruth {cs : List Char} (h : IsIdentifier cs)
    (hstart : ¬ StartsTruth cs) : scalar? cs = some (bareValue cs, []) := by
  have hquote : ∀ c ∈ cs, c ≠ '"' ∧ c ≠ '\'' := by
    intro c hc
    constructor <;> rintro rfl <;> exact absurd (h.chars _ hc) (by decide)
  unfold scalar?
  split
  -- one case for each way a value can begin; an identifier without a truth value has none of them
  · next rest => exact absurd (.inl ⟨rest, rfl⟩) hstart
  · next rest => exact absurd (.inr ⟨rest, rfl⟩) hstart
  · exact absurd rfl (hquote _ List.mem_cons_self).1
  · exact absurd rfl (hquote _ List.mem_cons_self).2
  · exact absurd rfl (hquote _ List.mem_cons_self).2
  · rw [h.bare_eq]

/-- The name of a truth value is taken off, and the word is more than that name if anything is left.
What is left then makes the word a text. -/
theorem scalar?_of_startsTruth {cs : List Char} (h : StartsTruth cs) :
    ∃ b rest, scalar? cs = some (.bool b, rest) ∧ rest <:+ cs ∧
      (rest = [] → TypedWord cs (.bool b)) := by
  rcases h with ⟨rest, rfl⟩ | ⟨rest, rfl⟩
  · exact ⟨true, rest, rfl, List.suffix_append _ _, by rintro rfl; exact .true⟩
  · exact ⟨false, rest, rfl, List.suffix_append _ _, by rintro rfl; exact .false⟩

theorem not_startsTruth {cs : List Char} (h : Stops Char.isAlpha cs) : ¬ StartsTruth cs := by
  rintro (⟨rest, rfl⟩ | ⟨rest, rfl⟩)
  · exact absurd ((stops_cons Char.isAlpha 't' ("rue".toList ++ rest)).1 h) (by decide)
  · exact absurd ((stops_cons Char.isAlpha 'f' ("alse".toList ++ rest)).1 h) (by decide)

theorem isAlpha_eq_false_of_isDecimal {c : Char} (h : isDecimal c) : c.isAlpha = false := by
  have hdigit := isDigit_iff.1 h
  rw [← Bool.not_eq_true, isAlpha_iff]
  omega

theorem stops_isAlpha_of_isDigits {cs : List Char} (h : IsDigits cs) : Stops Char.isAlpha cs :=
  fun c hc => isAlpha_eq_false_of_isDecimal (h.2 c (List.mem_of_mem_head? hc))

/-- A decimal numeral begins with a sign, a digit or a point, so with no letter. -/
theorem stops_isAlpha_of_written {cs : List Char} {negative : Bool} {m : Mantissa} {e : Int}
    (h : Numeral.Written cs (.decimal negative m e)) : Stops Char.isAlpha cs := by
  cases h with
  | decimal hs hm _ =>
    cases hs with
    | none => exact hm.stops (fun _ => isAlpha_eq_false_of_isDecimal) rfl _
    | plus => exact (stops_cons _ _ _).2 rfl
    | minus => exact (stops_cons _ _ _).2 rfl

/-- A word that writes a value is read as this value, with nothing left. One case for each kind;
numbers begin with no letter, so no truth value is taken off them. -/
theorem scalar?_of_typedWord {cs : List Char} {v : Value} (hcs : IsIdentifier cs)
    (h : TypedWord cs v) : scalar? cs = some (v, []) := by
  cases h with
  | true => rfl
  | false => rfl
  | natural hds hrange =>
    rw [scalar?_of_not_startsTruth hcs (not_startsTruth (stops_isAlpha_of_isDigits hds)),
      bareValue_of_isDigits hds hrange]
  | float hwritten hpoint hplain =>
    rw [scalar?_of_not_startsTruth hcs (not_startsTruth (stops_isAlpha_of_written hwritten)),
      bareValue_of_written hwritten hpoint hplain]

section

variable {s : String} (hs : IsIdentifier s.toList)
include hs

/-- The value of an identifier is that of its scalar, if the scalar takes all of it, and else the
text. Nothing in an identifier is skipped, at its ends or after the scalar. -/
theorem ofText_of_isIdentifier {v : Value} {rest : List Char} (h : scalar? s.toList = some (v, rest))
    (hrest : rest <:+ s.toList) : Value.ofText s = if rest = [] then v else .text s := by
  have hspace : ∀ c, isNameChar c → isAsciiSpace c = false := fun c hc => by
    rw [← Bool.not_eq_true]
    intro hascii
    have hspace := isSpace_of_isAsciiSpace hascii
    rw [isSpace_eq_false_of_isNameChar hc] at hspace
    cases hspace
  -- what is left is part of the identifier, and holds no space
  have hskip : skipSpace rest = rest := dropWhile_of_stops fun c hc =>
    hspace c (hs.chars c (hrest.subset (List.mem_of_mem_head? hc)))
  have hopen := hs.stops fun _ => isDelimiter_eq_false_of_isNameChar
  rw [ofText_of_scalar? (hs.stops hspace) hopen h, hskip]

/-- **A word that writes a truth value or a number is that value.** The scalar takes all of the
word. -/
theorem ofText_of_typedWord {v : Value} (h : TypedWord s.toList v) : Value.ofText s = v := by
  rw [ofText_of_isIdentifier hs (scalar?_of_typedWord hs h) (List.nil_suffix), if_pos rfl]

/-- **Any other word is a text**, either because more than the name of a truth value is there, or
because none of the readings of a bare word applies. -/
theorem ofText_of_not_typedWord (h : ∀ v, ¬ TypedWord s.toList v) : Value.ofText s = .text s := by
  by_cases hstart : StartsTruth s.toList
  · -- if nothing were left the word would be the truth value
    obtain ⟨b, rest, hscalar, hrest, htyped⟩ := scalar?_of_startsTruth hstart
    rw [ofText_of_isIdentifier hs hscalar hrest, if_neg fun hnil => h _ (htyped hnil)]
  · have hscalar := scalar?_of_not_startsTruth hs hstart
    rw [ofText_of_isIdentifier hs hscalar List.nil_suffix, if_pos rfl,
      bareValue_of_not_typedWord hs.stops_isSign h, String.ofList_toList]

end

end LabelQuery.Settings
