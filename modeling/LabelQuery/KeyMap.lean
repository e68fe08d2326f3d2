/-!
# Maps from keys

Finite maps whose keys are strings, kept in the order of the keys' bytes.

* `Text.ByteLt` — the order of the UTF-8 bytes, compared from the first byte on. It is strict and
  total: `byteLt_irrefl`, `byteLt_trans`, `byteLt_trichotomy`.
* `KeyMap.insert` — a map with one entry set; `find?_insert` says what it holds then.
* `KeyMap.keys` — the keys, each once, in order.

The map operations are stated on lists of entries first, because a list may stand inside a type that
is defined by recursion, where a map cannot.
-/

namespace LabelQuery

/-! ## The order of bytes -/

namespace Text

def utf8 (s : String) : List UInt8 :=
  s.toUTF8.data.toList

/-- `a` comes before `b` in the order of bytes. -/
def ByteLt (a b : String) : Prop :=
  utf8 a < utf8 b

instance (a b : String) : Decidable (ByteLt a b) :=
  inferInstanceAs (Decidable (utf8 a < utf8 b))

/-- Strings are told apart by their bytes. -/
theorem utf8_inj {a b : String} (h : utf8 a = utf8 b) : a = b :=
  String.toByteArray_inj.1 (ByteArray.ext (Array.toList_inj.1 h))

theorem byteLt_irrefl (a : String) : ¬ ByteLt a a :=
  List.lt_irrefl _

theorem byteLt_trans {a b c : String} (hab : ByteLt a b) (hbc : ByteLt b c) : ByteLt a c :=
  List.lt_trans hab hbc

/-- Of two different strings one comes before the other. -/
theorem byteLt_trichotomy {a b : String} (hne : a ≠ b) (h : ¬ ByteLt a b) : ByteLt b a := by
  have hle : utf8 b ≤ utf8 a := List.not_lt.1 h
  rcases List.le_iff_lt_or_eq.1 hle with hlt | heq
  · exact hlt
  · exact absurd (utf8_inj heq.symm) hne

end Text

/-! ## Lists of entries -/

/-- Entries of a map: keys with what they are mapped to. -/
abbrev Entries (α : Type) := List (String × α)

namespace Entries

variable {α : Type}

/-- The keys are in the order of bytes, each once. -/
def Ordered (es : Entries α) : Prop :=
  es.Pairwise fun a b => Text.ByteLt a.1 b.1

def find? : Entries α → String → Option α
  | [], _ => none
  | (k, v) :: es, key => if k = key then some v else find? es key

/-- The entries with one more, in the place of an entry of the same key if there is one. -/
def insert (key : String) (value : α) : Entries α → Entries α
  | [] => [(key, value)]
  | (k, v) :: es =>
    if k = key then (key, value) :: es
    else if Text.ByteLt k key then (k, v) :: insert key value es
    else (key, value) :: (k, v) :: es

/-- The entries in a list, of which later ones take the place of earlier ones. -/
def ofList (es : List (String × α)) : Entries α :=
  es.foldl (fun acc e => insert e.1 e.2 acc) []

/-- Putting an entry in brings no other entry than this one. -/
theorem mem_insert {key : String} {value : α} {es : Entries α} {e : String × α}
    (h : e ∈ insert key value es) : e = (key, value) ∨ e ∈ es := by
  induction es with
  | nil => exact .inl (by simpa [insert] using h)
  | cons head es ih =>
    obtain ⟨k, v⟩ := head
    unfold insert at h
    split at h
    · rcases List.mem_cons.1 h with h | h
      · exact .inl h
      · exact .inr (List.mem_cons_of_mem _ h)
    · split at h
      · rcases List.mem_cons.1 h with h | h
        · exact .inr (h ▸ List.mem_cons_self)
        · exact (ih h).imp_right (List.mem_cons_of_mem _)
      · rcases List.mem_cons.1 h with h | h
        · exact .inl h
        · exact .inr h

/-- Entries in order stay in order when one is put in. Induction on the entries: the new one goes in
front, takes the place of the first, or goes further back. -/
theorem Ordered.insert {key : String} {value : α} {es : Entries α} (h : Ordered es) :
    Ordered (insert key value es) := by
  induction es with
  | nil => simp [Entries.insert, Ordered]
  | cons head es ih =>
    obtain ⟨k, v⟩ := head
    obtain ⟨hhead, htail⟩ := List.pairwise_cons.1 h
    unfold Entries.insert
    split
    · next heq =>
      subst heq
      exact List.pairwise_cons.2 ⟨hhead, htail⟩
    · next hne =>
      split
      · next hlt =>
        -- what is behind the first entry now was there before, or is the new one
        refine List.pairwise_cons.2 ⟨fun e he => ?_, ih htail⟩
        rcases mem_insert he with rfl | he
        · exact hlt
        · exact hhead e he
      · next hge =>
        have hlt : Text.ByteLt key k := Text.byteLt_trichotomy hne hge
        refine List.pairwise_cons.2 ⟨fun e he => ?_, h⟩
        rcases List.mem_cons.1 he with rfl | he
        · exact hlt
        · exact Text.byteLt_trans hlt (hhead e he)

/-- After inserting, the key is mapped to the new value, and every other key to what it was. -/
theorem find?_insert (key : String) (value : α) (es : Entries α) (k : String) :
    find? (insert key value es) k = if k = key then some value else find? es k := by
  induction es with
  | nil => simp [insert, find?, eq_comm]
  | cons head es ih =>
    obtain ⟨k', v⟩ := head
    unfold insert
    split
    · next heq => by_cases h : k' = k <;> simp_all [find?, eq_comm]
    · next hne =>
      split
      · by_cases h : k' = k <;> simp_all [find?]
      · by_cases h : key = k <;> simp_all [find?, eq_comm]

end Entries

/-! ## Maps -/

/-- A finite map from strings. -/
structure KeyMap (α : Type) where
  entries : Entries α
  ordered : entries.Ordered
  deriving DecidableEq

namespace KeyMap

variable {α : Type}

def empty : KeyMap α :=
  ⟨[], List.Pairwise.nil⟩

def find? (m : KeyMap α) (key : String) : Option α :=
  m.entries.find? key

def insert (m : KeyMap α) (key : String) (value : α) : KeyMap α :=
  ⟨m.entries.insert key value, m.ordered.insert⟩

def keys (m : KeyMap α) : List String :=
  m.entries.map Prod.fst

theorem find?_insert (m : KeyMap α) (key : String) (value : α) (k : String) :
    (m.insert key value).find? k = if k = key then some value else m.find? k :=
  Entries.find?_insert key value m.entries k

/-- The keys of a map are in the order of their bytes, each once. -/
theorem keys_ordered (m : KeyMap α) : m.keys.Pairwise Text.ByteLt :=
  List.pairwise_map.2 m.ordered

end KeyMap

end LabelQuery
