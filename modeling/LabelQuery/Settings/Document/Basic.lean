import LabelQuery.Settings.Document.Statement
import LabelQuery.Settings.Value

/-!
# Settings — documents

A configuration file is a document of headers and entries. It holds no settings at all if one line of
it cannot be read, or if two lines are in each other's way. A byte order mark may precede it.

A table within a document may be a box: it holds a value under `boxKey` and stands for that value,
whatever else it holds. A document cannot give a value an identity, so a table with `identityKey`
cannot be read.

* `Value.unboxed?` — a value with every box in it replaced by what it holds.
* `unboxedEntries?` — the same for the entries of a table, which itself is no box.
* `tableOfDocument?` — the settings in a document, boxed values taken out of their boxes.
-/

namespace LabelQuery.Settings

/-! ## Boxed values -/

def boxKey : String :=
  "___figment_value_value"

/-- The key under which a value would have its identity. -/
def identityKey : String :=
  "___figment_value_id"

mutual

/-- A value with every box in it replaced by what it holds. -/
def Value.unboxed? : Value → Option Value
  | .text s => some (.text s)
  | .bool b => some (.bool b)
  | .integer n => some (.integer n)
  | .natural n => some (.natural n)
  | .float x => some (.float x)
  | .sequence items => (unboxedItems? items).map .sequence
  | .table entries =>
    match unboxedEntries? entries with
    | none => none
    | some entries =>
      if (Entries.find? entries identityKey).isSome then none
      else some ((Entries.find? entries boxKey).getD (.table entries))

/-- The values of a sequence with every box in them replaced. -/
def unboxedItems? : List Value → Option (List Value)
  | [] => some []
  | value :: values =>
    match value.unboxed?, unboxedItems? values with
    | some value, some values => some (value :: values)
    | _, _ => none

/-- The entries of a table with every box in them replaced. -/
def unboxedEntries? : List (String × Value) → Option (List (String × Value))
  | [] => some []
  | (key, value) :: entries =>
    match value.unboxed?, unboxedEntries? entries with
    | some value, some entries => some ((key, value) :: entries)
    | _, _ => none

end

/-! ## Whole documents -/

open Document

/-- A document as far as it is put together. -/
structure Document where
  header : List String
  entries : Entries Node

def Document.add? (d : Document) : Statement → Option Document
  | .header path => (openTable? path d.entries).map fun entries => ⟨path, entries⟩
  | .item path => (openItem? path d.entries).map fun entries => ⟨path, entries⟩
  | .entry path v => (putUnder? path v d.header d.entries).map fun entries => ⟨d.header, entries⟩

/-- A text without the byte order mark at its start. -/
def skipByteOrderMark : List Char → List Char
  | '\ufeff' :: cs => cs
  | cs => cs

def tableOfDocument? (text : String) : Option Table := do
  let statements ← statements? (skipByteOrderMark text.toList)
  let document ← statements.foldlM Document.add? ⟨[], []⟩
  unboxedEntries? (tableOfNodes document.entries)

end LabelQuery.Settings
