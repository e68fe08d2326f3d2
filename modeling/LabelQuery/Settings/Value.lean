import LabelQuery.KeyMap
import LabelQuery.Number.Binary64
import LabelQuery.Text.Quoted

/-!
# Settings — values

What a configuration file and the environment hold: texts, booleans, numbers, and sequences and
tables of values.

* `Value.overlay` — one value laid over another: tables are joined key by key, and anything else is
  replaced.
* `tableAt` — the table that holds a value at the end of a path of keys.
* `Value.kind` — what messages call a value.
-/

namespace LabelQuery.Settings

/-- A value of the settings. -/
inductive Value
  | text (s : String)
  | bool (b : Bool)
  | integer (n : Int)
  /-- An integer of a kind that is never negative. -/
  | natural (n : Nat)
  | float (x : Number.Binary64)
  | sequence (items : List Value)
  | table (entries : List (String × Value))
  deriving Repr

abbrev Table := Entries Value

/-! ## Laying values over one another -/

mutual

/-- A value laid over another: two tables are joined, and anything else takes the place of what was
there. -/
def Value.overlay (old : Value) : Value → Value
  | .table new =>
    match old with
    | .table entries => .table (overlayEntries entries new)
    | _ => .table new
  | .text s => .text s
  | .bool b => .bool b
  | .integer n => .integer n
  | .natural n => .natural n
  | .float x => .float x
  | .sequence items => .sequence items

/-- A table with later entries laid over it, one after another. -/
def overlayEntries : Table → List (String × Value) → Table
  | old, [] => old
  | old, (key, value) :: new =>
    let value := match old.find? key with
      | some before => before.overlay value
      | none => value
    overlayEntries (old.insert key value) new

end

def Table.overlay (old new : Table) : Table :=
  overlayEntries old new

/-- A value at the end of a path of keys, each in a table of its own. -/
def Value.nest (value : Value) : List String → Value
  | [] => value
  | key :: path => .table [(key, value.nest path)]

/-- The table that holds a value at the end of a path of keys. A path without keys leads nowhere. -/
def tableAt (value : Value) : List String → Table
  | [] => []
  | key :: path => [(key, value.nest path)]

/-! ## Naming values -/

/-- What messages call a value. -/
def Value.kind : Value → String
  | .text s => "string " ++ Text.quoted s
  | .bool b => "bool " ++ (if b then "true" else "false")
  | .integer n => "signed int \x60" ++ toString n ++ "\x60"
  | .natural n => "unsigned int \x60" ++ toString n ++ "\x60"
  | .float x => "float \x60" ++ x.text ++ "\x60"
  | .sequence _ => "sequence"
  | .table _ => "map"

end LabelQuery.Settings
