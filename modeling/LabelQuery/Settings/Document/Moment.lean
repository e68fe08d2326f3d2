import LabelQuery.Number.Integer

/-!
# Settings — dates and times

A document may name a day of the calendar, a time of day, or both. A time with a day may say how far
it is ahead of universal time.

* `moment?` — a date, a time or both at the start of a text.
* `Moment.text` — how a moment is written. Of the digits after the point of a second the first nine
  count, and zeros at their end do not.
-/

namespace LabelQuery.Settings.Document

open Number

/-- A day of the calendar. -/
structure Date where
  year : Nat
  /-- The month, counted from one. -/
  month : Nat
  day : Nat
  deriving DecidableEq, Repr

/-- A time of day. -/
structure Time where
  hour : Nat
  minute : Nat
  /-- The second of the minute, sixty if it is a leap second. -/
  second : Nat
  fraction : List Char
  deriving DecidableEq, Repr

/-- How far a time is ahead of universal time. -/
inductive Offset
  | universal
  | minutes (n : Int)
  deriving DecidableEq, Repr

/-- A date, a time or both. -/
inductive Moment
  | date (d : Date)
  | time (t : Time)
  | dateTime (d : Date) (t : Time) (offset : Option Offset)
  deriving DecidableEq, Repr

/-! ## Writing -/

/-- A number with zeros before it, up to a number of digits. -/
def padded (width n : Nat) : String :=
  String.ofList (List.leftpad width '0' (Nat.toDigits 10 n))

def Date.text (d : Date) : String :=
  padded 4 d.year ++ "-" ++ padded 2 d.month ++ "-" ++ padded 2 d.day

def Time.text (t : Time) : String :=
  padded 2 t.hour ++ ":" ++ padded 2 t.minute ++ ":" ++ padded 2 t.second
    ++ String.ofList (if t.fraction = [] then [] else '.' :: t.fraction)

def Offset.text : Offset → String
  | .universal => "Z"
  | .minutes n =>
    (if n < 0 then "-" else "+") ++ padded 2 (n.natAbs / 60) ++ ":" ++ padded 2 (n.natAbs % 60)

def Moment.text : Moment → String
  | .date d => d.text
  | .time t => t.text
  | .dateTime d t offset => d.text ++ "T" ++ t.text ++ (offset.map Offset.text).getD ""

/-! ## Reading -/

def daysIn (year month : Nat) : Nat :=
  if month = 2 then
    if year % 4 = 0 ∧ (year % 100 ≠ 0 ∨ year % 400 = 0) then 29 else 28
  else if month ∈ [4, 6, 9, 11] then 30
  else 31

/-- A number of so many digits, neither too small nor too large, at the start of a text. -/
def field? (digits low high : Nat) (cs : List Char) : Option (Nat × List Char) :=
  let ds := cs.take digits
  let n := ofDigits 10 ds
  if ds.length = digits ∧ ds.all isDecimal ∧ low ≤ n ∧ n ≤ high then some (n, cs.drop digits)
  else none

def date? (cs : List Char) : Option (Date × List Char) :=
  match field? 4 0 9999 cs with
  | some (year, '-' :: cs) =>
    match field? 2 1 12 cs with
    | some (month, '-' :: cs) =>
      (field? 2 1 (daysIn year month) cs).map fun (day, rest) => (⟨year, month, day⟩, rest)
    | _ => none
  | _ => none

/-- The digits after a point at the start of a text that count, and what follows them all. -/
def fraction : List Char → List Char × List Char
  | '.' :: cs =>
    if cs.takeWhile isDecimal = [] then ([], '.' :: cs)
    else (((cs.takeWhile isDecimal).take 9).reverse.dropWhile (· == '0') |>.reverse,
      cs.dropWhile isDecimal)
  | cs => ([], cs)

def time? (cs : List Char) : Option (Time × List Char) :=
  match field? 2 0 23 cs with
  | some (hour, ':' :: cs) =>
    match field? 2 0 59 cs with
    | some (minute, ':' :: cs) =>
      (field? 2 0 60 cs).map fun (second, rest) =>
        (⟨hour, minute, second, (fraction rest).1⟩, (fraction rest).2)
    | _ => none
  | _ => none

/-- An offset in hours and minutes at the start of a text. -/
def minutes? (cs : List Char) : Option (Nat × List Char) :=
  match field? 2 0 23 cs with
  | some (hours, ':' :: cs) =>
    (field? 2 0 59 cs).map fun (minutes, rest) => (60 * hours + minutes, rest)
  | _ => none

/-- An offset at the start of a text, if there is one, and what follows it. -/
def offset (cs : List Char) : Option Offset × List Char :=
  match cs with
  | 'Z' :: rest => (some .universal, rest)
  | 'z' :: rest => (some .universal, rest)
  | '+' :: tail =>
    match minutes? tail with
    | some (n, rest) => (some (.minutes n), rest)
    | none => (none, cs)
  | '-' :: tail =>
    match minutes? tail with
    | some (n, rest) => (some (.minutes (-n)), rest)
    | none => (none, cs)
  | _ => (none, cs)

/-- The time that follows a date, after a space or a letter between them. -/
def timeAfterDate? : List Char → Option (Time × List Char)
  | c :: cs => if c = 'T' ∨ c = 't' ∨ c = ' ' then time? cs else none
  | [] => none

/-- A date, a time or both at the start of a text, and what follows. -/
def moment? (cs : List Char) : Option (Moment × List Char) :=
  match date? cs with
  | none => (time? cs).map fun (t, rest) => (.time t, rest)
  | some (d, mid) =>
    match timeAfterDate? mid with
    | none => some (.date d, mid)
    | some (t, rest) => some (.dateTime d t (offset rest).1, (offset rest).2)

/-! ## What is left -/

theorem field?_length_le {digits low high n : Nat} {cs rest : List Char}
    (h : field? digits low high cs = some (n, rest)) : rest.length ≤ cs.length := by
  unfold field? at h
  dsimp only at h
  split at h
  · cases h
    exact (List.drop_sublist _ _).length_le
  · cases h

theorem date?_length_le {d : Date} {cs rest : List Char} (h : date? cs = some (d, rest)) :
    rest.length ≤ cs.length := by
  unfold date? at h
  split at h
  · next hyear =>
    split at h
    · next hmonth =>
      obtain ⟨⟨_, _⟩, hday, heq⟩ := Option.map_eq_some_iff.1 h
      cases heq
      have h₁ := field?_length_le hyear
      have h₂ := field?_length_le hmonth
      have h₃ := field?_length_le hday
      simp only [List.length_cons] at h₁ h₂
      omega
    · cases h
  · cases h

theorem fraction_length_le (cs : List Char) : (fraction cs).2.length ≤ cs.length := by
  unfold fraction
  split
  · next cs =>
    split
    · exact Nat.le_refl _
    · have := (List.dropWhile_sublist (l := cs) isDecimal).length_le
      simp only [List.length_cons]
      omega
  · exact Nat.le_refl _

theorem time?_length_le {t : Time} {cs rest : List Char} (h : time? cs = some (t, rest)) :
    rest.length ≤ cs.length := by
  unfold time? at h
  split at h
  · next hhour =>
    split at h
    · next hminute =>
      obtain ⟨⟨_, mid⟩, hsecond, heq⟩ := Option.map_eq_some_iff.1 h
      cases heq
      have h₁ := field?_length_le hhour
      have h₂ := field?_length_le hminute
      have h₃ := field?_length_le hsecond
      have h₄ := fraction_length_le mid
      simp only [List.length_cons] at h₁ h₂
      omega
    · cases h
  · cases h

theorem minutes?_length_le {n : Nat} {cs rest : List Char} (h : minutes? cs = some (n, rest)) :
    rest.length ≤ cs.length := by
  unfold minutes? at h
  split at h
  · next hhour =>
    obtain ⟨⟨_, _⟩, hminute, heq⟩ := Option.map_eq_some_iff.1 h
    cases heq
    have h₁ := field?_length_le hhour
    have h₂ := field?_length_le hminute
    simp only [List.length_cons] at h₁
    omega
  · cases h

theorem offset_length_le (cs : List Char) : (offset cs).2.length ≤ cs.length := by
  unfold offset
  split
  · simp
  · simp
  · split
    · next hminutes =>
      have := minutes?_length_le hminutes
      simp only [List.length_cons]
      omega
    · exact Nat.le_refl _
  · split
    · next hminutes =>
      have := minutes?_length_le hminutes
      simp only [List.length_cons]
      omega
    · exact Nat.le_refl _
  · exact Nat.le_refl _

theorem timeAfterDate?_length_le {t : Time} {cs rest : List Char}
    (h : timeAfterDate? cs = some (t, rest)) : rest.length ≤ cs.length := by
  unfold timeAfterDate? at h
  split at h
  · split at h
    · have := time?_length_le h
      simp only [List.length_cons]
      omega
    · cases h
  · cases h

/-- Reading a moment leaves no more text than there was. -/
theorem moment?_length_le {m : Moment} {cs rest : List Char} (h : moment? cs = some (m, rest)) :
    rest.length ≤ cs.length := by
  unfold moment? at h
  split at h
  · obtain ⟨⟨_, _⟩, htime, heq⟩ := Option.map_eq_some_iff.1 h
    cases heq
    exact time?_length_le htime
  · next hdate =>
    have h₁ := date?_length_le hdate
    split at h
    · cases h
      exact h₁
    · next mid htime =>
      cases h
      have h₂ := timeAfterDate?_length_le htime
      have h₃ := offset_length_le mid
      omega

end LabelQuery.Settings.Document
