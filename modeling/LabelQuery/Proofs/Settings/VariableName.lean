import LabelQuery.Proofs.Text.Word
import LabelQuery.Settings.Environment

/-!
# Settings — the variable for a setting

The keys that lead to a setting, written one after another with two underscores between them, name
the variable for it. The name leads back through these keys in lower case, if it can be cut in one
way only: no key holds a dot or two underscores in a row, and none ends with an underscore, which
would join the ones after it.

* `IsKeyWord` — such a key.
* `dotted_joinWith` — the name is cut between the keys.
* `path?_variableName` — the name leads through the keys.
-/

namespace LabelQuery.Settings

open Text

/-- A key that can be told in the name of a variable. -/
structure IsKeyWord (key : List Char) : Prop where
  ne_nil : key ≠ []
  no_dot : '.' ∉ key
  no_break : ¬ ['_', '_'] <:+: key
  no_end : key.getLast? ≠ some '_'

/-- The name of the variable for the setting at the end of a path of keys. -/
def variableName (keys : List (List Char)) : String :=
  String.ofList ("NRQL__".toList ++ joinWith ['_', '_'] keys)

theorem toList_variableName (keys : List (List Char)) :
    (variableName keys).toList = "NRQL__".toList ++ joinWith ['_', '_'] keys :=
  String.toList_ofList

/-! ## Underscores and dots -/

/-- A character that does not begin a pair of underscores stays. -/
theorem dotted_cons {c : Char} {cs : List Char} (h : c = '_' → cs.head? ≠ some '_') :
    dotted (c :: cs) = c :: dotted cs := by
  rw [dotted]
  rintro cs' rfl rfl
  exact h rfl rfl

/-- A key without two underscores in a row stays as it is. Induction on the key. -/
theorem dotted_of_no_break {key : List Char} (h : ¬ ['_', '_'] <:+: key) : dotted key = key := by
  induction key with
  | nil => rfl
  | cons c cs ih =>
    rw [dotted_cons, ih fun hcs => h (List.infix_cons hcs)]
    rintro rfl hhead
    obtain ⟨cs, rfl⟩ := List.head?_eq_some_iff.1 hhead
    exact h ⟨[], cs, rfl⟩

/-- The two underscores after a key are the first two that are met: none are in the key, and its
last character does not join them. Induction on the key. -/
theorem dotted_append {key : List Char} (h : ¬ ['_', '_'] <:+: key) (hend : key.getLast? ≠ some '_')
    (rest : List Char) : dotted (key ++ '_' :: '_' :: rest) = key ++ '.' :: dotted rest := by
  induction key with
  | nil => rfl
  | cons c cs ih =>
    cases cs with
    | nil =>
      -- the last character of the key is no underscore, which would begin a pair
      have hc : c ≠ '_' := by
        rintro rfl
        exact hend rfl
      exact dotted_cons fun heq => absurd heq hc
    | cons d ds =>
      rw [List.cons_append, dotted_cons, ih]
      · rfl
      · exact fun hds => h (List.infix_cons hds)
      · rwa [List.getLast?_cons_cons] at hend
      · rintro rfl hhead
        obtain rfl : d = '_' := Option.some.inj hhead
        exact h ⟨[], ds, rfl⟩

/-- The name of a variable is cut between the keys and nowhere else. Induction on the keys, each of
which is left behind with the underscores after it. -/
theorem dotted_joinWith {keys : List (List Char)} (h : ∀ key ∈ keys, IsKeyWord key) :
    dotted (joinWith ['_', '_'] keys) = joinWith ['.'] keys := by
  induction keys with
  | nil => rfl
  | cons key keys ih =>
    obtain ⟨hkey, hkeys⟩ := List.forall_mem_cons.1 h
    cases keys with
    | nil => exact dotted_of_no_break hkey.no_break
    | cons next keys =>
      rw [joinWith_cons_cons, joinWith_cons_cons, List.append_assoc, List.append_assoc]
      show dotted (key ++ '_' :: '_' :: joinWith ['_', '_'] (next :: keys)) = _
      rw [dotted_append hkey.no_break hkey.no_end, ih hkeys]
      rfl

/-- **The name of a variable leads through the keys that it is made of**, in lower case. White space
at its ends would not count, so the first key must not begin with any, and the last must not end
with any. -/
theorem path?_variableName {keys : List (List Char)} (hne : keys ≠ [])
    (h : ∀ key ∈ keys, IsKeyWord key) (hstart : ∀ key ∈ keys.head?, Stops isSpace key)
    (hend : ∀ key ∈ keys.getLast?, Stops isSpace key.reverse) :
    path? (variableName keys) =
      some (keys.map fun key => String.ofList (key.map Char.toLower)) := by
  have hnonempty : ∀ key ∈ keys, key ≠ [] := fun key hkey => (h key hkey).ne_nil
  -- the name is trimmed twice, before it is cut and after the prefix is taken off
  have htrim : ∀ sep, trim (joinWith sep keys) = joinWith sep keys := fun sep =>
    trim_of_stops (stops_joinWith hnonempty hstart) (stops_reverse_joinWith hnonempty hend)
  -- the name begins with the prefix and ends as the last key does
  have hname : trim (variableName keys).toList = "NRQL__".toList ++ joinWith ['_', '_'] keys := by
    have hfront : Stops isSpace "NRQL__".toList := (stops_cons isSpace 'N' "RQL__".toList).2 rfl
    rw [toList_variableName]
    refine trim_of_stops (hfront.append_right (by decide) _) ?_
    rw [List.reverse_append]
    refine (stops_reverse_joinWith hnonempty hend).append_right ?_ _
    obtain ⟨key, keys, rfl⟩ := List.exists_cons_of_ne_nil hne
    exact mt List.reverse_eq_nil_iff.1 (joinWith_ne_nil (hnonempty key List.mem_cons_self) keys)
  -- after the prefix come the keys
  have hafter : afterWord? variablePrefix ("NRQL__".toList ++ joinWith ['_', '_'] keys) =
      some (joinWith ['_', '_'] keys) :=
    afterWord?_eq_some_iff.2 ⟨"NRQL__".toList, by decide, rfl⟩
  -- which are found again between the dots, since no key holds one
  have hcut : splitAt '.' (trim (dotted (joinWith ['_', '_'] keys))) = keys := by
    rw [dotted_joinWith h, htrim, splitAt_joinWith hne fun key hkey => (h key hkey).no_dot]
  have hall : [] ∉ keys := fun hnil => hnonempty [] hnil rfl
  unfold path?
  rw [hname, hafter]
  simp only [bind, Option.bind, hcut, if_neg hall]

end LabelQuery.Settings
