import LabelQuery.Proofs.Number.Grammar
import LabelQuery.Proofs.Text.Run
import LabelQuery.Proofs.Text.Word

/-!
# Number — the parts of numerals, read against the grammar

Signs, digit groups, mantissas and exponents, and whole numbers. Of each part, what a reader takes is
written as the grammar says; and what is so written is taken whole, if the text after it cannot go on
with it.

* `group?_written`, `group?_append` — digit groups.
* `mantissa?_written`, `mantissa?_append` — mantissas.
* `exponent?_written`, `exponent?_append` — exponents.
* `WrittenInteger cs n` — a text writes a whole number: an optional sign and decimal digits, any
  number of zeros in front included. No underscore, point or blank may stand in it.
* `int?_eq_some_iff`, `int64?_isSome_iff` — the readers take exactly such texts, the second one in the
  range of 64 bits.
-/

namespace LabelQuery.Number

open Text Numeral

variable {p : Char → Bool}

/-! ## Signs -/

def isSign (c : Char) : Bool :=
  c == '+' || c == '-'

theorem isHex_of_isDecimal {c : Char} (h : isDecimal c) : isHex c := by
  have hdigit : c.isDigit := h
  rw [isHex, hdigit]
  rfl

/-- No sign is a digit, so a sign before digits is told from them. -/
theorem isSign_eq_false_of_isHex {c : Char} (h : isHex c) : isSign c = false := by
  rw [Bool.eq_false_iff]
  intro hsign
  simp only [isSign, Bool.or_eq_true, beq_iff_eq] at hsign
  rcases hsign with rfl | rfl
  · exact absurd h (by decide)
  · exact absurd h (by decide)

theorem isSign_eq_false {c : Char} (h : isDecimal c) : isSign c = false :=
  isSign_eq_false_of_isHex (isHex_of_isDecimal h)

/-- What `sign` takes off is an optional sign, and what it answers says which. -/
theorem written_sign (cs : List Char) :
    ∃ s, WrittenSign s (sign cs).1 ∧ cs = s ++ (sign cs).2 := by
  unfold sign
  split
  · exact ⟨['-'], .minus, rfl⟩
  · exact ⟨['+'], .plus, rfl⟩
  · exact ⟨[], .none, rfl⟩

/-- A sign is taken off, if no further sign follows it. Without a sign the text itself must not
begin with one. -/
theorem sign_append {s rest : List Char} {negative : Bool} (hs : WrittenSign s negative)
    (hrest : Stops isSign rest) : sign (s ++ rest) = (negative, rest) := by
  cases hs with
  | plus => rfl
  | minus => rfl
  | none =>
    rw [List.nil_append]
    unfold sign
    split
    · simp [isSign] at hrest
    · simp [isSign] at hrest
    · rfl

/-! ## Groups -/

/-- The characters of a digit group. -/
def isGroupChar (p : Char → Bool) (c : Char) : Bool :=
  p c || c == '_'

/-- Where a group cannot go on, no digits are taken. -/
theorem moreDigits_of_stops {cs : List Char} (h : Stops (isGroupChar p) cs) :
    moreDigits p cs = ([], cs) := by
  unfold moreDigits
  split
  · rfl
  · simp [isGroupChar] at h
  · next d cs _ =>
    have hd : p d = false := by
      simp only [stops_cons, isGroupChar, Bool.or_eq_false_iff] at h
      exact h.1
    rw [hd]
    rfl

theorem ne_underscore (hp : p '_' = false) {c : Char} (hc : p c) : c ≠ '_' := by
  rintro rfl
  rw [hp] at hc
  exact absurd hc Bool.false_ne_true

/-- A digit goes on with a group. The reader looks for an underscore first, which a digit is not. -/
theorem moreDigits_digit (hp : p '_' = false) {d : Char} (hd : p d) (cs : List Char) :
    moreDigits p (d :: cs) = (d :: (moreDigits p cs).1, (moreDigits p cs).2) := by
  rw [moreDigits]
  · exact if_pos hd
  · -- the digit is not an underscore that may stand between two
    intro _ _ hunder
    exact absurd hunder (ne_underscore hp hd)

theorem moreDigits_underscore {d : Char} (hd : p d) (cs : List Char) :
    moreDigits p ('_' :: d :: cs) = (d :: (moreDigits p cs).1, (moreDigits p cs).2) := by
  rw [moreDigits]
  exact if_pos hd

/-- What continues a group after a digit is the rest of a group. Induction on the text, with the
digit before it as a parameter. -/
theorem writtenGroup_moreDigits {d : Char} (hd : p d) (cs : List Char) :
    ∃ text, d :: cs = text ++ (moreDigits p cs).2 ∧
      WrittenGroup p text (d :: (moreDigits p cs).1) := by
  fun_induction moreDigits p cs generalizing d with
  | case1 => exact ⟨[d], rfl, .last hd⟩
  | case2 e cs he ih =>
    -- an underscore and a digit after it
    obtain ⟨text, hcs, htext⟩ := ih he
    exact ⟨d :: '_' :: text, by rw [hcs]; rfl, .underscore hd htext⟩
  | case3 => exact ⟨[d], rfl, .last hd⟩
  | case4 e cs _ he ih =>
    -- a digit
    obtain ⟨text, hcs, htext⟩ := ih he
    exact ⟨d :: text, by rw [hcs]; rfl, .digit hd htext⟩
  | case5 => exact ⟨[d], rfl, .last hd⟩

/-- **A group that is read is written as the grammar says**, at the start of the text. -/
theorem group?_written {cs ds rest : List Char} (h : group? p cs = some (ds, rest)) :
    ∃ text, cs = text ++ rest ∧ WrittenGroup p text ds := by
  unfold group? at h
  split at h
  · cases h
  · next d cs =>
    split at h
    · next hd =>
      cases h
      exact writtenGroup_moreDigits hd cs
    · cases h

/-- After the first digit of a group come the others, and the reading goes on after them. Induction on
the group. -/
theorem WrittenGroup.moreDigits_append (hp : p '_' = false) {text ds : List Char}
    (h : WrittenGroup p text ds) (rest : List Char) :
    ∃ d tail es, text = d :: tail ∧ p d ∧ ds = d :: es ∧
      moreDigits p (tail ++ rest) = (es ++ (moreDigits p rest).1, (moreDigits p rest).2) := by
  induction h with
  | @last d hd => exact ⟨d, [], [], rfl, hd, rfl, rfl⟩
  | @digit d _ _ hd _ ih =>
    obtain ⟨e, tail, es, rfl, he, rfl, hmore⟩ := ih
    refine ⟨d, e :: tail, e :: es, rfl, hd, rfl, ?_⟩
    rw [List.cons_append, moreDigits_digit hp he, hmore, List.cons_append]
  | @underscore d _ _ hd _ ih =>
    obtain ⟨e, tail, es, rfl, he, rfl, hmore⟩ := ih
    refine ⟨d, '_' :: e :: tail, e :: es, rfl, hd, rfl, ?_⟩
    rw [List.cons_append, List.cons_append, moreDigits_underscore he, hmore, List.cons_append]

/-- A group is read, and whatever goes on with it. -/
theorem group?_append_more (hp : p '_' = false) {text ds : List Char} (h : WrittenGroup p text ds)
    (rest : List Char) :
    group? p (text ++ rest) = some (ds ++ (moreDigits p rest).1, (moreDigits p rest).2) := by
  obtain ⟨d, tail, es, rfl, hd, rfl, hmore⟩ := h.moreDigits_append hp rest
  show (if p d then some (d :: (moreDigits p (tail ++ rest)).1, (moreDigits p (tail ++ rest)).2)
    else none) = _
  rw [if_pos hd, hmore, List.cons_append]

/-- **A group is read whole**, if the text after it does not go on with it. -/
theorem group?_append (hp : p '_' = false) {text ds rest : List Char} (h : WrittenGroup p text ds)
    (hrest : Stops (isGroupChar p) rest) : group? p (text ++ rest) = some (ds, rest) := by
  rw [group?_append_more hp h, moreDigits_of_stops hrest, List.append_nil]

/-- Where no digit stands, no group is read. -/
theorem group?_of_stops {cs : List Char} (h : Stops p cs) : group? p cs = none := by
  cases cs with
  | nil => rfl
  | cons d cs =>
    show (if p d then _ else none) = _
    rw [(stops_cons p d cs).1 h]
    rfl

theorem WrittenGroup.ne_nil {text ds : List Char} (h : WrittenGroup p text ds) : ds ≠ [] := by
  cases h <;> simp

/-- Digits without underscores are a group. Induction on the digits, of which the last one ends the
group. -/
theorem WrittenGroup.of_digits {ds : List Char} (hne : ds ≠ []) (h : ∀ d ∈ ds, p d) :
    WrittenGroup p ds ds := by
  induction ds with
  | nil => exact absurd rfl hne
  | cons d ds ih =>
    have hd := h d List.mem_cons_self
    cases ds with
    | nil => exact .last hd
    | cons e ds =>
      exact .digit hd (ih (List.cons_ne_nil e ds) fun c hc => h c (List.mem_cons_of_mem d hc))

/-- The digits of a group are digits. -/
theorem WrittenGroup.digits {text ds : List Char} (h : WrittenGroup p text ds) : ∀ d ∈ ds, p d := by
  induction h with
  | last hd => simpa using hd
  | digit hd _ ih => simpa [hd] using ih
  | underscore hd _ ih => simpa [hd] using ih

/-- A group has only digits and underscores. -/
theorem WrittenGroup.chars {text ds : List Char} (h : WrittenGroup p text ds) :
    ∀ c ∈ text, isGroupChar p c := by
  induction h with
  | last hd => simpa [isGroupChar] using .inl hd
  | digit hd _ ih => simpa [isGroupChar, hd] using ih
  | underscore hd _ ih => simpa [isGroupChar, hd] using ih

/-- A group begins with a digit, so that what has no digits stops at it. -/
theorem WrittenGroup.stops {q : Char → Bool} {text ds : List Char} (h : WrittenGroup p text ds)
    (hpq : ∀ c, p c → q c = false) (rest : List Char) : Stops q (text ++ rest) := by
  cases h with
  | last hd => exact (stops_cons _ _ _).2 (hpq _ hd)
  | digit hd _ => exact (stops_cons _ _ _).2 (hpq _ hd)
  | underscore hd _ => exact (stops_cons _ _ _).2 (hpq _ hd)

/-! ## Mantissas -/

/-- The characters of a mantissa. -/
def isMantissaChar (p : Char → Bool) (c : Char) : Bool :=
  isGroupChar p c || c == '.'

/-- A mantissa has only digits, underscores and points. -/
theorem Mantissa.Written.chars {text : List Char} {m : Mantissa} (h : m.Written p text) :
    ∀ c ∈ text, isMantissaChar p c := by
  have hgroup : ∀ {text ds}, WrittenGroup p text ds → ∀ c ∈ text, isMantissaChar p c := by
    intro text ds h c hc
    rw [isMantissaChar, h.chars c hc, Bool.true_or]
  have hpoint : isMantissaChar p '.' := Bool.or_true _
  cases h with
  | whole h => exact hgroup h
  | point h => exact List.forall_mem_append.2 ⟨hgroup h, List.forall_mem_singleton.2 hpoint⟩
  | both h h' =>
    exact List.forall_mem_append.2 ⟨hgroup h, List.forall_mem_cons.2 ⟨hpoint, hgroup h'⟩⟩
  | fraction h' => exact List.forall_mem_cons.2 ⟨hpoint, hgroup h'⟩

theorem stops_isGroupChar {cs : List Char} (h : Stops (isMantissaChar p) cs) :
    Stops (isGroupChar p) cs := by
  intro c hc
  have hmantissa := h c hc
  rw [isMantissaChar, Bool.or_eq_false_iff] at hmantissa
  exact hmantissa.1

theorem stops_digit {cs : List Char} (h : Stops (isMantissaChar p) cs) : Stops p cs := by
  intro c hc
  have hgroup := stops_isGroupChar h c hc
  rw [isGroupChar, Bool.or_eq_false_iff] at hgroup
  exact hgroup.1

theorem optionalGroup_append_more (hp : p '_' = false) {text ds : List Char}
    (h : WrittenGroup p text ds) (rest : List Char) :
    optionalGroup p (text ++ rest) = (ds ++ (moreDigits p rest).1, (moreDigits p rest).2) := by
  rw [optionalGroup, group?_append_more hp h]
  rfl

/-- An optional group is read whole, if it is there and the text after it does not go on with it. -/
theorem optionalGroup_append (hp : p '_' = false) {text ds rest : List Char}
    (h : WrittenGroup p text ds) (hrest : Stops (isGroupChar p) rest) :
    optionalGroup p (text ++ rest) = (ds, rest) := by
  rw [optionalGroup_append_more hp h, moreDigits_of_stops hrest, List.append_nil]

theorem optionalGroup_of_stops {cs : List Char} (h : Stops p cs) : optionalGroup p cs = ([], cs) := by
  rw [optionalGroup, group?_of_stops h]
  rfl

/-- An optional group is a group, or there are no digits. -/
theorem optionalGroup_written {cs ds rest : List Char} (h : optionalGroup p cs = (ds, rest)) :
    (∃ text, cs = text ++ rest ∧ WrittenGroup p text ds) ∨ ds = [] ∧ cs = rest := by
  unfold optionalGroup at h
  cases hgroup : group? p cs with
  | none =>
    rw [hgroup] at h
    cases h
    exact .inr ⟨rfl, rfl⟩
  | some found =>
    rw [hgroup] at h
    cases h
    exact .inl (group?_written hgroup)

/-- A point and the group after it, each of which may be missing. -/
def optionalFraction (p : Char → Bool) : List Char → List Char × List Char
  | '.' :: cs => optionalGroup p cs
  | cs => ([], cs)

theorem optionalFraction_of_stops {cs : List Char} (h : Stops (isMantissaChar p) cs) :
    optionalFraction p cs = ([], cs) := by
  unfold optionalFraction
  split
  · simp [isMantissaChar] at h
  · rfl

/-- An optional fraction is a point with an optional group after it, or nothing. -/
theorem optionalFraction_cases {cs es rest : List Char} (h : optionalFraction p cs = (es, rest)) :
    (∃ tail, cs = '.' :: tail ∧ optionalGroup p tail = (es, rest)) ∨ es = [] ∧ cs = rest := by
  unfold optionalFraction at h
  split at h
  · next tail => exact .inl ⟨tail, rfl, h⟩
  · cases h
    exact .inr ⟨rfl, rfl⟩

/-- A mantissa is an optional group and an optional fraction, one of them with digits. The lemmas on
mantissas go through this form, with the text between the two parts named. -/
theorem mantissa?_eq_some_iff {cs rest : List Char} {m : Mantissa} :
    mantissa? p cs = some (m, rest) ↔ ∃ mid, optionalGroup p cs = (m.whole, mid) ∧
      optionalFraction p mid = (m.fraction, rest) ∧ ¬ (m.whole = [] ∧ m.fraction = []) := by
  have hunfold : mantissa? p cs =
      if (optionalGroup p cs).1 = [] ∧ (optionalFraction p (optionalGroup p cs).2).1 = [] then none
      else some (⟨(optionalGroup p cs).1, (optionalFraction p (optionalGroup p cs).2).1⟩,
        (optionalFraction p (optionalGroup p cs).2).2) := rfl
  rw [hunfold]
  constructor
  · intro h
    split at h
    · cases h
    · next hdigits =>
      cases h
      exact ⟨_, rfl, rfl, hdigits⟩
  · rintro ⟨mid, hwhole, hfraction, hdigits⟩
    rw [hwhole, hfraction, if_neg hdigits]

/-- **A mantissa that is read is written as the grammar says.** One case for each of its forms, by
which of the two optional parts were found; without any digit there is no mantissa. -/
theorem mantissa?_written {cs rest : List Char} {m : Mantissa} (h : mantissa? p cs = some (m, rest)) :
    ∃ text, cs = text ++ rest ∧ m.Written p text := by
  obtain ⟨mid, hwhole, hfraction, hdigits⟩ := mantissa?_eq_some_iff.1 h
  obtain ⟨whole, fraction⟩ := m
  rcases optionalGroup_written hwhole with ⟨text, rfl, htext⟩ | ⟨rfl, rfl⟩
  · rcases optionalFraction_cases hfraction with ⟨tail, rfl, htail⟩ | ⟨rfl, rfl⟩
    · rcases optionalGroup_written htail with ⟨text', rfl, htext'⟩ | ⟨rfl, rfl⟩
      · exact ⟨text ++ '.' :: text', by simp, .both htext htext'⟩
      · exact ⟨text ++ ['.'], by simp, .point htext⟩
    · exact ⟨text, rfl, .whole htext⟩
  · rcases optionalFraction_cases hfraction with ⟨tail, rfl, htail⟩ | ⟨rfl, rfl⟩
    · rcases optionalGroup_written htail with ⟨text', rfl, htext'⟩ | ⟨rfl, rfl⟩
      · exact ⟨'.' :: text', rfl, .fraction htext'⟩
      · -- a point alone
        exact absurd ⟨rfl, rfl⟩ hdigits
    · -- neither digits nor a point
      exact absurd ⟨rfl, rfl⟩ hdigits

theorem stops_point (hp' : p '.' = false) (cs : List Char) : Stops (isGroupChar p) ('.' :: cs) := by
  rw [stops_cons, isGroupChar, hp']
  rfl

/-- **A mantissa is read whole**, if the text after it does not go on with it. One case for each
form; a first group ends at the point, which is no character of a group. -/
theorem mantissa?_append (hp : p '_' = false) (hp' : p '.' = false) {text rest : List Char}
    {m : Mantissa} (h : m.Written p text) (hrest : Stops (isMantissaChar p) rest) :
    mantissa? p (text ++ rest) = some (m, rest) := by
  have hgroup := stops_isGroupChar hrest
  rw [mantissa?_eq_some_iff]
  cases h with
  | whole h =>
    exact ⟨rest, optionalGroup_append hp h hgroup, optionalFraction_of_stops hrest,
      fun hnil => h.ne_nil hnil.1⟩
  | point h =>
    rw [List.append_assoc]
    exact ⟨'.' :: rest, optionalGroup_append hp h (stops_point hp' rest),
      optionalGroup_of_stops (stops_digit hrest), fun hnil => h.ne_nil hnil.1⟩
  | both h h' =>
    rw [List.append_assoc]
    exact ⟨_, optionalGroup_append hp h (stops_point hp' _),
      optionalGroup_append hp h' hgroup, fun hnil => h.ne_nil hnil.1⟩
  | fraction h' =>
    exact ⟨_, optionalGroup_of_stops ((stops_cons _ _ _).2 hp'), optionalGroup_append hp h' hgroup,
      fun hnil => h'.ne_nil hnil.2⟩

/-- A mantissa begins with a digit or a point. -/
theorem Mantissa.Written.stops {q : Char → Bool} {text : List Char} {m : Mantissa}
    (h : m.Written p text) (hq : ∀ c, p c → q c = false) (hpoint : q '.' = false)
    (rest : List Char) : Stops q (text ++ rest) := by
  cases h with
  | whole h => exact h.stops hq rest
  | point h =>
    rw [List.append_assoc]
    exact h.stops hq _
  | both h _ =>
    rw [List.append_assoc]
    exact h.stops hq _
  | fraction _ => exact (stops_cons _ _ _).2 hpoint

/-- A mantissa with digits before its point begins with a digit. -/
theorem Mantissa.Written.digit_of_whole {text : List Char} {m : Mantissa} (h : m.Written p text)
    (hne : m.whole ≠ []) (rest : List Char) : ∃ d cs, text ++ rest = d :: cs ∧ p d := by
  have hgroup : ∀ {text ds : List Char} (rest : List Char), WrittenGroup p text ds →
      ∃ d cs, text ++ rest = d :: cs ∧ p d := by
    intro text ds rest h
    cases h with
    | last hd => exact ⟨_, _, rfl, hd⟩
    | digit hd _ => exact ⟨_, _, rfl, hd⟩
    | underscore hd _ => exact ⟨_, _, rfl, hd⟩
  cases h with
  | whole h => exact hgroup rest h
  | point h =>
    rw [List.append_assoc]
    exact hgroup _ h
  | both h _ =>
    rw [List.append_assoc]
    exact hgroup _ h
  | fraction _ => exact absurd rfl hne

/-- A mantissa that begins with a digit has digits before its point. -/
theorem Mantissa.Written.whole_of_digit {text : List Char} {m : Mantissa} (h : m.Written p text)
    (hp' : p '.' = false) {rest : List Char} (hd : ∃ d ∈ (text ++ rest).head?, p d) :
    m.whole ≠ [] := by
  cases h with
  | whole h => exact h.ne_nil
  | point h => exact h.ne_nil
  | both h _ => exact h.ne_nil
  | fraction _ =>
    obtain ⟨d, hd, hp⟩ := hd
    cases hd
    rw [hp'] at hp
    exact absurd hp Bool.false_ne_true

/-! ## Exponents -/

/-- **An exponent that is read is written as the grammar says**: its mark in either case, a sign,
and a group. -/
theorem exponent?_written {mark : Char} {cs rest : List Char} {e : Int}
    (h : exponent? mark cs = some (e, rest)) :
    ∃ text, cs = text ++ rest ∧ WrittenExponent mark text e := by
  obtain ⟨tail, hmark, h⟩ := Option.bind_eq_some_iff.1 h
  obtain ⟨⟨ds, rest'⟩, hgroup, h⟩ := Option.bind_eq_some_iff.1 h
  cases h
  -- the mark is a word of one letter
  obtain ⟨start, hstart, rfl⟩ := afterWord?_eq_some_iff.1 hmark
  obtain ⟨c, rfl, hc⟩ : ∃ c, start = [c] ∧ c.toLower = mark := by
    simpa using hstart
  obtain ⟨s, hs, htail⟩ := written_sign tail
  obtain ⟨text, hrest, htext⟩ := group?_written hgroup
  refine ⟨c :: (s ++ text), ?_, .intro hc hs htext⟩
  rw [htail, hrest]
  simp

/-- After its mark and a sign, an exponent is a group of digits. -/
theorem exponent?_of_mark {mark c : Char} {s rest : List Char} {negative : Bool}
    (hc : c.toLower = mark) (hs : WrittenSign s negative) (hrest : Stops isSign rest) :
    exponent? mark (c :: (s ++ rest)) =
      (group? isDecimal rest).map fun (ds, left) => (signed negative (ofDigits 10 ds), left) := by
  have hmark : afterMark? mark (c :: (s ++ rest)) = some (s ++ rest) :=
    afterWord?_append (show [c].map Char.toLower = [mark] by simp [hc]) (s ++ rest)
  unfold exponent?
  rw [hmark]
  simp only [bind, Option.bind, sign_append hs hrest]
  cases group? isDecimal rest <;> rfl

/-- **An exponent is read whole**, if the text after it does not go on with its digits. -/
theorem exponent?_append {mark : Char} {text rest : List Char} {e : Int}
    (h : WrittenExponent mark text e) (hrest : Stops (isGroupChar isDecimal) rest) :
    exponent? mark (text ++ rest) = some (e, rest) := by
  cases h with
  | @intro c s digits ds negative hc hs hgroup =>
    -- the digits do not go on with the sign
    have hsign : Stops isSign (digits ++ rest) := hgroup.stops (fun _ => isSign_eq_false) rest
    rw [List.cons_append, List.append_assoc, exponent?_of_mark hc hs hsign,
      group?_append rfl hgroup hrest]
    rfl

/-- An exponent begins with its mark. -/
theorem WrittenExponent.stops {mark : Char} {q : Char → Bool} {text : List Char} {e : Int}
    (h : WrittenExponent mark text e) (hq : ∀ c : Char, c.toLower = mark → q c = false)
    (rest : List Char) : Stops q (text ++ rest) := by
  cases h with
  | intro hc _ _ => exact (stops_cons _ _ _).2 (hq _ hc)

/-! ## Whole numbers -/

/-- A text is an optional sign and decimal digits, at least one, and writes this number. -/
inductive WrittenInteger : List Char → Int → Prop where
  | intro {s ds : List Char} {negative : Bool} (hs : WrittenSign s negative) (hds : IsDigits ds) :
      WrittenInteger (s ++ ds) (signed negative (ofDigits 10 ds))

/-- A text writes a whole number in the range of 64 bits. -/
def WrittenInt64 (cs : List Char) : Prop :=
  ∃ n, WrittenInteger cs n ∧ InInt64 n

theorem IsDigits.stops_isSign {ds : List Char} (h : IsDigits ds) : Stops isSign ds := by
  cases ds with
  | nil => exact stops_nil isSign
  | cons d ds => exact (stops_cons isSign d ds).2 (isSign_eq_false (h.2 d List.mem_cons_self))

/-- **A whole number is read exactly as it is written**: an optional sign is taken off, and the rest
has to be digits. -/
theorem int?_eq_some_iff {cs : List Char} {n : Int} : int? cs = some n ↔ WrittenInteger cs n := by
  constructor
  · intro h
    obtain ⟨s, hs, hcs⟩ := written_sign cs
    unfold int? at h
    split at h
    · next hds =>
      -- the sign that was taken off and the digits after it are the text
      have hwritten := WrittenInteger.intro hs hds
      rwa [← hcs, Option.some.inj h] at hwritten
    · cases h
  · rintro ⟨hs, hds⟩
    rw [int?, sign_append hs hds.stops_isSign, if_pos hds]

/-- A text writes at most one whole number, since it is read as only one. -/
theorem WrittenInteger.unique {cs : List Char} {n m : Int} (hn : WrittenInteger cs n)
    (hm : WrittenInteger cs m) : n = m := by
  rw [← int?_eq_some_iff] at hn hm
  exact Option.some.inj (hn.symm.trans hm)

/-- A text is taken for an integer of 64 bits exactly if it writes a whole number in their range. -/
theorem int64?_isSome_iff {cs : List Char} : (int64? cs).isSome ↔ WrittenInt64 cs := by
  unfold int64? WrittenInt64
  simp only [Option.isSome_iff_exists, Option.filter_eq_some_iff, int?_eq_some_iff,
    decide_eq_true_eq]

end LabelQuery.Number
