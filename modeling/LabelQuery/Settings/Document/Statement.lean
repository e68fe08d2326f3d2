import LabelQuery.Settings.Document.Node
import LabelQuery.Settings.Document.Token
import LabelQuery.Text.Position

/-!
# Settings — statements of a document

A document is a row of lines: blank ones, headers that open tables, and entries with a key and a
value. A header stands in brackets, and one that opens a further table of a row in two pairs of them.
An array may run over several lines, a table in braces may not. Both hold values only so deep.

* `value?` — a scalar, an array or a table in braces.
* `statements?` — the statements of a whole document.
-/

namespace LabelQuery.Settings.Document

open Text

/-! ## Values -/

/-- The table in braces that entries make, if no two of them are in each other's way. -/
def inlineTable? (entries : List (List String × Value)) : Option Value :=
  (entries.foldlM (fun es (path, v) => put? v path es) []).map fun es => .table (tableOfNodes es)

mutual

/-- The value at the start of a text, in which so many brackets and braces may stand open at once. -/
def value? (depth : Nat) (cs : List Char) : Option (Value × Rest cs) :=
  match depth, cs with
  | 0, '[' :: _ => none
  | 0, '{' :: _ => none
  | depth + 1, '[' :: mid =>
    match items? depth mid with
    | some (items, ⟨rest, hrest⟩) =>
      some (.sequence items, ⟨rest, by rw [List.length_cons]; omega⟩)
    | none => none
  | depth + 1, '{' :: mid =>
    have hskip := skipGap_length_le mid
    match hmid : skipGap mid with
    | '}' :: rest =>
      some (.table [], ⟨rest, by
        rw [hmid, List.length_cons] at hskip
        rw [List.length_cons]
        omega⟩)
    | tail =>
      have htail : tail.length ≤ mid.length := hmid ▸ hskip
      match entries? depth tail with
      | some (entries, ⟨rest, hrest⟩) =>
        (inlineTable? entries).map fun table =>
          (table, ⟨rest, by rw [List.length_cons]; omega⟩)
      | none => none
  | _, cs =>
    match h : scalar? cs with
    | some (value, rest) => some (value, ⟨rest, scalar?_length_le h⟩)
    | none => none
termination_by 2 * cs.length

/-- The values of an array, up to and with its closing bracket. A comma may follow the last. -/
def items? (depth : Nat) (cs : List Char) : Option (List Value × Rest cs) :=
  have hskip := skipLines_length_le cs
  match hcs : skipLines cs with
  | ']' :: rest =>
    some ([], ⟨rest, by rw [hcs, List.length_cons] at hskip; omega⟩)
  | mid =>
    have hmid : mid.length ≤ cs.length := hcs ▸ hskip
    match value? depth mid with
    | none => none
    | some (value, ⟨afterValue, hvalue⟩) =>
      have hafter := skipLines_length_le afterValue
      match hsep : skipLines afterValue with
      | ',' :: more =>
        have hmore : more.length < cs.length := by
          rw [hsep, List.length_cons] at hafter
          omega
        match items? depth more with
        | some (values, ⟨rest, hrest⟩) => some (value :: values, ⟨rest, by omega⟩)
        | none => none
      | ']' :: rest =>
        some ([value], ⟨rest, by rw [hsep, List.length_cons] at hafter; omega⟩)
      | _ => none
termination_by 2 * cs.length + 1
decreasing_by all_goals omega

/-- The entries of a table in braces, up to and with its closing brace. -/
def entries? (depth : Nat) (cs : List Char) : Option (List (List String × Value) × Rest cs) :=
  match hpath : path? cs with
  | some (path, '=' :: mid) =>
    have hentry := path?_length_lt hpath
    have hskip := skipGap_length_le mid
    have hmid : (skipGap mid).length < cs.length := by
      rw [List.length_cons] at hentry
      omega
    match value? depth (skipGap mid) with
    | none => none
    | some (value, ⟨afterValue, hvalue⟩) =>
      have hafter := skipGap_length_le afterValue
      match hsep : skipGap afterValue with
      | ',' :: tail =>
        have hgap := skipGap_length_le tail
        have hmore : (skipGap tail).length < cs.length := by
          rw [hsep, List.length_cons] at hafter
          omega
        match entries? depth (skipGap tail) with
        | some (entries, ⟨rest, hrest⟩) => some ((path, value) :: entries, ⟨rest, by omega⟩)
        | none => none
      | '}' :: rest =>
        some ([(path, value)], ⟨rest, by rw [hsep, List.length_cons] at hafter; omega⟩)
      | _ => none
  | _ => none
termination_by 2 * cs.length + 1

end

/-! ## Statements -/

/-- A line of a document that says something. -/
inductive Statement
  /-- A header opens a table. -/
  | header (path : List String)
  /-- A header opens a further table of a row. -/
  | item (path : List String)
  | entry (path : List String) (value : Value)
  deriving Repr

/-- The statement at the start of a text, and the text after its line. -/
def statement? : List Char → Option (Statement × List Char)
  | '[' :: '[' :: cs =>
    match path? (skipGap cs) with
    | some (path, ']' :: ']' :: rest) => (lineEnd? rest).map fun rest => (.item path, rest)
    | _ => none
  | '[' :: cs =>
    match path? (skipGap cs) with
    | some (path, ']' :: rest) => (lineEnd? rest).map fun rest => (.header path, rest)
    | _ => none
  | cs =>
    match path? cs with
    | some (path, '=' :: rest) =>
      match value? maxDepth (skipGap rest) with
      | some (value, ⟨rest, _⟩) => (lineEnd? rest).map fun rest => (.entry path value, rest)
      | none => none
    | _ => none

theorem statement?_length_lt {cs rest : List Char} {s : Statement}
    (h : statement? cs = some (s, rest)) : rest.length < cs.length := by
  unfold statement? at h
  split at h
  · next cs =>
    have h₁ := skipGap_length_le cs
    split at h
    · next hpath =>
      obtain ⟨_, hend, heq⟩ := Option.map_eq_some_iff.1 h
      cases heq
      have h₂ := path?_length_lt hpath
      have h₃ := lineEnd?_length_le hend
      simp only [List.length_cons] at h₂ ⊢
      omega
    · cases h
  · next cs _ =>
    have h₁ := skipGap_length_le cs
    split at h
    · next hpath =>
      obtain ⟨_, hend, heq⟩ := Option.map_eq_some_iff.1 h
      cases heq
      have h₂ := path?_length_lt hpath
      have h₃ := lineEnd?_length_le hend
      simp only [List.length_cons] at h₂ ⊢
      omega
    · cases h
  · split at h
    · next tail hpath =>
      have h₁ := path?_length_lt hpath
      have h₂ := skipGap_length_le tail
      split at h
      · next mid hmid _ =>
        obtain ⟨_, hend, heq⟩ := Option.map_eq_some_iff.1 h
        cases heq
        have h₃ := lineEnd?_length_le hend
        simp only [List.length_cons] at h₁
        omega
      · cases h
    · cases h

def statements? (cs : List Char) : Option (List Statement) :=
  if skipLines cs = [] then some []
  else
    match _ : statement? (skipLines cs) with
    | some (s, rest) => (statements? rest).map (s :: ·)
    | none => none
termination_by cs.length
decreasing_by
  have h₁ := skipLines_length_le cs
  have h₂ := statement?_length_lt ‹statement? (skipLines cs) = some (s, rest)›
  omega

end LabelQuery.Settings.Document
