import LabelQuery.Settings.Value

/-!
# Settings — documents as trees

While a document is read, each table remembers how it came about, because that decides whether it
may still be added to: a table is opened by a header once, and dotted keys add only to tables that
dotted keys made. Of tables in a row only the last can be added to.

* `put?` — a value set by a dotted key.
* `openTable?` — a table opened by a header.
* `openItem?` — a further table of a row opened by a header.
* `tableOfNodes` — the settings that remain when the document has been read.
-/

namespace LabelQuery.Settings

/-- How a table of a document came about. -/
inductive Origin
  /-- A header names it. -/
  | header
  /-- A header names a table within it. -/
  | implied
  /-- A dotted key leads through it. -/
  | dotted
  deriving DecidableEq, Repr

/-- A part of a document that is being read. -/
inductive Node
  | value (v : Value)
  | table (origin : Origin) (entries : List (String × Node))
  /-- Tables in a row: those that are complete, and the entries of the last. -/
  | row (complete : List Value) (entries : List (String × Node))
  deriving Repr

/-! ## Settings -/

mutual

def Node.toValue : Node → Value
  | .value v => v
  | .table _ entries => .table (tableOfNodes entries)
  | .row complete entries => .sequence (complete ++ [.table (tableOfNodes entries)])

def tableOfNodes : List (String × Node) → Table
  | [] => []
  | (key, node) :: entries => (key, node.toValue) :: tableOfNodes entries

end

/-! ## Keys -/

/-- Entries with a value at the end of a dotted key. The key must not be taken. On its way it may
lead through tables that headers imply and the last table of a row, but ends in one that dotted keys
made, or in the table that it starts from. -/
def put? (v : Value) : List String → Entries Node → Option (Entries Node)
  | [], _ => none
  | [key], es => if (es.find? key).isSome then none else some (es.insert key (.value v))
  | key :: path, es =>
    match es.find? key with
    | none => (put? v path []).map fun inner => es.insert key (.table .dotted inner)
    | some (.table origin inner) =>
      if origin = .dotted ∨ origin = .implied ∧ 1 < path.length then
        (put? v path inner).map fun inner => es.insert key (.table origin inner)
      else none
    | some (.row complete inner) =>
      if 1 < path.length then
        (put? v path inner).map fun inner => es.insert key (.row complete inner)
      else none
    | some (.value _) => none

/-- Entries with a value at the end of a dotted key, which starts from the table of a header. -/
def putUnder? (path : List String) (v : Value) : List String → Entries Node → Option (Entries Node)
  | [], es => put? v path es
  | key :: header, es =>
    match es.find? key with
    | some (.table origin inner) =>
      (putUnder? path v header inner).map fun inner => es.insert key (.table origin inner)
    | some (.row complete inner) =>
      (putUnder? path v header inner).map fun inner => es.insert key (.row complete inner)
    | _ => none

/-! ## Headers -/

/-- What a header makes of the part that it names. No header, key or value may have made a table
before. -/
def Node.opened? : Option Node → Option Node
  | none => some (.table .header [])
  | some (.table .implied inner) => some (.table .header inner)
  | some _ => none

/-- What the header of a row makes of the part that it names, which must be a row if it is there. -/
def Node.extended? : Option Node → Option Node
  | none => some (.row [] [])
  | some (.row complete inner) => some (.row (complete ++ [.table (tableOfNodes inner)]) [])
  | some _ => none

/-- Entries with the part that a header names made anew. -/
def openWith? (change : Option Node → Option Node) :
    List String → Entries Node → Option (Entries Node)
  | [], _ => none
  | [key], es => (change (es.find? key)).map fun node => es.insert key node
  | key :: path, es =>
    match es.find? key with
    | none => (openWith? change path []).map fun inner => es.insert key (.table .implied inner)
    | some (.table origin inner) =>
      (openWith? change path inner).map fun inner => es.insert key (.table origin inner)
    | some (.row complete inner) =>
      (openWith? change path inner).map fun inner => es.insert key (.row complete inner)
    | some (.value _) => none

def openTable? : List String → Entries Node → Option (Entries Node) :=
  openWith? Node.opened?

/-- Entries with a further table of a row opened by a header. -/
def openItem? : List String → Entries Node → Option (Entries Node) :=
  openWith? Node.extended?

end LabelQuery.Settings
