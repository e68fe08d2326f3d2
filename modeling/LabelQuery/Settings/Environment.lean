import LabelQuery.Number.Integer
import LabelQuery.Number.Numeral
import LabelQuery.Settings.Quoted
import LabelQuery.Settings.Value
import LabelQuery.Text.Blank
import LabelQuery.Text.Position
import LabelQuery.Text.Word

/-!
# Settings — environment variables

Variables whose names start with `NRQL__`, in any case, hold settings. In the rest of the name two
underscores, or a dot, stand between the keys that lead to the setting. The text of a variable is
read as a value:

* `true` and `false` are truth values.
* Braces hold entries `key = value` between commas, brackets hold values between commas. A comma may
  follow the last of them.
* Double quotes hold a text with escapes, single quotes hold one character. What stands before the
  first escape is measured in bytes against its number of characters, so that outside ASCII its end
  is lost.
* Any other run of characters up to a comma, a brace or a bracket is a number if it looks like one,
  and a text if not.

`Value.ofText` is the value of a whole text; a text that is not read to its end is a text as it is.
`path?` gives the keys that the name of a variable leads through, in lower case, `Environment.assign`
the environment after a variable is set, and `tableOfEnvironment` the settings in an environment. Of
two variables for one setting the later one counts.
-/

namespace LabelQuery.Settings

open Text Number

/-! ## Values on one line -/

/-! ### Words -/

def isDelimiter (c : Char) : Bool :=
  c == ',' || c == '{' || c == '}' || c == '[' || c == ']'

/-- The number that a text with a point writes in decimal, too large or not. -/
def float? (cs : List Char) : Option Binary64 :=
  if '.' ∈ cs ∧ '_' ∉ cs then
    match Numeral.decimal? cs with
    | some (numeral, []) => some numeral.value
    | _ => none
  else none

/-- The value of a word without quotes: a number with a point, a whole number, or else a text, in
this order. -/
def bareValue (cs : List Char) : Value :=
  match float? cs, nat64? cs, int64? cs with
  | some x, _, _ => .float x
  | none, some n, _ => .natural n
  | none, none, some n => .integer n
  | none, none, none => .text (String.ofList cs)

/-- A bare word and the rest. White space around the word counts for nothing. -/
def bare (cs : List Char) : Value × List Char :=
  (bareValue (trim (cs.takeWhile (!isDelimiter ·))), cs.dropWhile (!isDelimiter ·))

/-- The characters of a quoted text before its end or its first escape. -/
def beforeEscape (cs : List Char) : List Char :=
  cs.takeWhile fun c => c != '"' && c != '\\'

/-- A text up to its closing quote, the opening one having been read, and what follows it. If the
text has an escape, then of the `n` characters before the first one only those count that lie within
the first `n` bytes. -/
def quotedText? (cs : List Char) : Option (List Char × List Char) :=
  (quoted? cs).map fun (text, rest) =>
    let n := (beforeEscape cs).length
    if cs[n]? = some '\\' then (takeBytes n (text.take n) ++ text.drop n, rest) else (text, rest)

/-- A value that holds no others, at the start of a text. -/
def scalar? : List Char → Option (Value × List Char)
  | 't' :: 'r' :: 'u' :: 'e' :: rest => some (.bool true, rest)
  | 'f' :: 'a' :: 'l' :: 's' :: 'e' :: rest => some (.bool false, rest)
  | '"' :: cs => (quotedText? cs).map fun (text, rest) => (.text (String.ofList text), rest)
  | '\'' :: c :: '\'' :: rest => some (.text (String.singleton c), rest)
  | '\'' :: _ => none
  | cs => some (bare cs)

/-- The key of an entry at the start of a text, bare or between double quotes. -/
def key? : List Char → Option (String × List Char)
  | '"' :: cs => (quotedText? cs).map fun (key, rest) => (String.ofList key, rest)
  | cs => bareKey? cs

/-- A quoted text takes at least its closing quote. -/
theorem quotedText?_length_lt {cs text rest : List Char}
    (h : quotedText? cs = some (text, rest)) : rest.length < cs.length := by
  obtain ⟨⟨_, _⟩, hquoted, heq⟩ := Option.map_eq_some_iff.1 h
  have := quoted?_length_lt hquoted
  dsimp only at heq
  split at heq <;> cases heq <;> exact this

theorem key?_length_lt {cs rest : List Char} {key : String} (h : key? cs = some (key, rest)) :
    rest.length < cs.length := by
  unfold key? at h
  split at h
  · obtain ⟨_, hkey, heq⟩ := Option.map_eq_some_iff.1 h
    cases heq
    have := quotedText?_length_lt hkey
    simp only [List.length_cons]
    omega
  · exact bareKey?_length_lt h

/-- What follows the sign of an entry is less than the entry. -/
theorem afterSign_length_lt {cs afterKey afterSign : List Char} {key : String} {c : Char}
    (hkey : key? (skipSpace cs) = some (key, afterKey))
    (hsign : skipSpace afterKey = c :: afterSign) : afterSign.length < cs.length := by
  have hcs := skipSpace_length_le cs
  have hafter := skipSpace_length_le afterKey
  have hentry := key?_length_lt hkey
  rw [hsign, List.length_cons] at hafter
  omega

theorem scalar?_length_le {cs rest : List Char} {v : Value} (h : scalar? cs = some (v, rest)) :
    rest.length ≤ cs.length := by
  unfold scalar? at h
  split at h
  · cases h
    simp only [List.length_cons]
    omega
  · cases h
    simp only [List.length_cons]
    omega
  · obtain ⟨_, htext, heq⟩ := Option.map_eq_some_iff.1 h
    cases heq
    have := quotedText?_length_lt htext
    simp only [List.length_cons]
    omega
  · cases h
    simp only [List.length_cons]
    omega
  · cases h
  · cases h
    exact (List.dropWhile_sublist _).length_le

/-! ### Values that hold values -/

mutual

/-- The value at the start of a text, with the white space around it. -/
def value? (cs : List Char) : Option (Value × Rest cs) :=
  have hskip := skipSpace_length_le cs
  match hcs : skipSpace cs with
  | '{' :: mid =>
    match entries? mid with
    | none => none
    | some (entries, ⟨rest, hrest⟩) =>
      some (.table (Entries.ofList entries), ⟨skipSpace rest, by
        have := skipSpace_length_le rest
        rw [hcs, List.length_cons] at hskip
        omega⟩)
  | '[' :: mid =>
    match items? mid with
    | none => none
    | some (items, ⟨rest, hrest⟩) =>
      some (.sequence items, ⟨skipSpace rest, by
        have := skipSpace_length_le rest
        rw [hcs, List.length_cons] at hskip
        omega⟩)
  | mid =>
    match hscalar : scalar? mid with
    | none => none
    | some (value, rest) =>
      some (value, ⟨skipSpace rest, by
        have := skipSpace_length_le rest
        have := scalar?_length_le hscalar
        rw [hcs] at hskip
        omega⟩)
termination_by 2 * cs.length
decreasing_by
  all_goals
    rw [hcs, List.length_cons] at hskip
    omega

/-- The values of a sequence, up to and with its closing bracket. -/
def items? (cs : List Char) : Option (List Value × Rest cs) :=
  match cs with
  | ']' :: rest => some ([], ⟨rest, by simp⟩)
  | cs =>
    match value? cs with
    | none => none
    | some (value, tail) =>
      match hmark : tail.1 with
      | ',' :: mid =>
        have hmid := Rest.length_lt tail hmark
        match items? mid with
        | none => none
        | some (values, ⟨rest, hrest⟩) => some (value :: values, ⟨rest, by omega⟩)
      | ']' :: rest => some ([value], ⟨rest, Nat.le_of_lt (Rest.length_lt tail hmark)⟩)
      | _ => none
termination_by 2 * cs.length + 1

/-- The entries of a table, up to and with its closing brace. -/
def entries? (cs : List Char) : Option (List (String × Value) × Rest cs) :=
  match cs with
  | '}' :: rest => some ([], ⟨rest, by simp⟩)
  | cs =>
    match hkey : key? (skipSpace cs) with
    | none => none
    | some (key, afterKey) =>
      match hsign : skipSpace afterKey with
      | '=' :: afterSign =>
        have hless := afterSign_length_lt hkey hsign
        match value? afterSign with
        | none => none
        | some (value, tail) =>
          match hmark : tail.1 with
          | ',' :: mid =>
            have hmid := Nat.lt_trans (Rest.length_lt tail hmark) hless
            match entries? mid with
            | none => none
            | some (entries, ⟨rest, hrest⟩) =>
              some ((key, value) :: entries, ⟨rest, Nat.le_trans hrest (Nat.le_of_lt hmid)⟩)
          | '}' :: rest =>
            have hend := Nat.lt_trans (Rest.length_lt tail hmark) hless
            some ([(key, value)], ⟨rest, Nat.le_of_lt hend⟩)
          | _ => none
      | _ => none
termination_by 2 * cs.length + 1

end

/-- The value of a whole text. What is left over makes it a text as it is. -/
def Value.ofText (s : String) : Value :=
  match value? s.toList with
  | some (value, ⟨[], _⟩) => value
  | _ => .text s

/-! ## Variables -/

/-- A variable of the environment. -/
structure Variable where
  name : String
  value : String
  deriving DecidableEq, Repr

/-- What the names of settings start with, in lower case. -/
def variablePrefix : List Char := "nrql__".toList

/-- A text with a dot in the place of every two underscores, from left to right. -/
def dotted : List Char → List Char
  | [] => []
  | '_' :: '_' :: cs => '.' :: dotted cs
  | c :: cs => c :: dotted cs

/-- The keys that the name of a variable leads through, unless the variable holds no setting. -/
def path? (name : String) : Option (List String) := do
  let rest ← afterWord? variablePrefix (trim name.toList)
  let keys := splitAt '.' (trim (dotted rest))
  if [] ∈ keys then none
  else some (keys.map fun key => String.ofList (key.map Char.toLower))

/-- The variables that are set, each once, in the order in which they were first set. -/
abbrev Environment := List Variable

/-- The environment after a variable is set. A variable that was set before keeps its place. -/
def Environment.assign (v : Variable) : Environment → Environment
  | [] => [v]
  | w :: ws => if w.name = v.name then v :: ws else w :: assign v ws

/-- The environment after variables are set, in order. -/
def Environment.ofAssignments (vs : List Variable) : Environment :=
  vs.foldl (fun env v => env.assign v) []

/-- The settings that one variable holds, none if its name leads through no keys. -/
def tableOfVariable (v : Variable) : Table :=
  match path? v.name with
  | some path => tableAt (Value.ofText v.value) path
  | none => []

/-- The settings in an environment, later variables laid over earlier ones. -/
def tableOfEnvironment (env : Environment) : Table :=
  env.foldl (fun table v => Table.overlay table (tableOfVariable v)) []

end LabelQuery.Settings
