import LabelQuery.KeyMap

/-!
# Maps from keys — a map is what it holds

The keys of a map are those at which something is found, and since the entries stand in the order of
their keys, nothing else can tell two maps apart. In what order entries are put in leaves no trace.

* `Entries.insert_insert`, `Entries.insert_comm` — entries put in one after another.
* `KeyMap.mem_keys_iff` — the keys are those at which something is found.
* `KeyMap.ext_find?` — maps with the same value at every key are equal.
-/

namespace LabelQuery

variable {α : Type}

namespace Entries

theorem find?_insert_self (key : String) (value : α) (es : Entries α) :
    find? (insert key value es) key = some value := by
  rw [find?_insert, if_pos rfl]

theorem find?_insert_of_ne {key k : String} (h : k ≠ key) (value : α) (es : Entries α) :
    find? (insert key value es) k = find? es k := by
  rw [find?_insert, if_neg h]

/-! ### Entries put in one after another

An entry goes in front of the first one whose key is not before its own, so that these laws hold of
all lists of entries, in order or not. -/

theorem insert_cons_self (key : String) (value old : α) (es : Entries α) :
    insert key value ((key, old) :: es) = (key, value) :: es :=
  if_pos rfl

/-- An entry with an earlier key stays in front, and the new one goes behind it. -/
theorem insert_cons_of_byteLt {k key : String} (h : Text.ByteLt k key) (value v : α)
    (es : Entries α) : insert key value ((k, v) :: es) = (k, v) :: insert key value es := by
  have hne : k ≠ key := by
    rintro rfl
    exact Text.byteLt_irrefl k h
  rw [insert, if_neg hne, if_pos h]

/-- An entry whose key comes before that of the first one goes in front. In entries in order it
comes before all keys then, but no order is needed here. -/
theorem insert_of_byteLt_head {key : String} {es : Entries α}
    (h : ∀ e ∈ es.head?, Text.ByteLt key e.1) (value : α) :
    insert key value es = (key, value) :: es := by
  cases es with
  | nil => rfl
  | cons e es =>
    obtain ⟨k, v⟩ := e
    have hlt : Text.ByteLt key k := h (k, v) rfl
    have hne : k ≠ key := by
      rintro rfl
      exact Text.byteLt_irrefl k hlt
    have hge : ¬ Text.ByteLt k key := fun hgt => Text.byteLt_irrefl k (Text.byteLt_trans hgt hlt)
    rw [insert, if_neg hne, if_neg hge]

/-- After an entry was put in, the first one is that entry or was the first before. -/
theorem head?_insert {key : String} {value : α} {es : Entries α} {e : String × α}
    (h : e ∈ (insert key value es).head?) : e = (key, value) ∨ e ∈ es.head? := by
  cases es with
  | nil => exact .inl (Option.some.inj h).symm
  | cons head es =>
    unfold insert at h
    split at h
    · exact .inl (Option.some.inj h).symm
    · split at h
      · exact .inr h
      · exact .inl (Option.some.inj h).symm

/-- Of two values put in under one key the later one stays. Induction on the list, up to the place
of the key. -/
theorem insert_insert (key : String) (value old : α) (es : Entries α) :
    insert key value (insert key old es) = insert key value es := by
  induction es with
  | nil => exact insert_cons_self key value old []
  | cons e es ih =>
    obtain ⟨k, v⟩ := e
    -- the first entry is replaced, stays in front, or is behind both new ones
    by_cases heq : k = key
    · subst heq
      rw [insert_cons_self, insert_cons_self, insert_cons_self]
    · by_cases hlt : Text.ByteLt k key
      · simp only [insert_cons_of_byteLt hlt, ih]
      · have hfront : ∀ e ∈ ((k, v) :: es).head?, Text.ByteLt key e.1 := by
          rintro _ ⟨⟩
          exact Text.byteLt_trichotomy heq hlt
        simp only [insert_of_byteLt_head hfront, insert_cons_self]

/-- Entries of two keys, the first of which comes before the second. Induction on the list: an entry
that stands before both stays in front, and otherwise the place of the first key is there, before
the place of the second one. -/
theorem insert_comm_of_byteLt {k₁ k₂ : String} (h : Text.ByteLt k₁ k₂) (v₁ v₂ : α)
    (es : Entries α) : insert k₁ v₁ (insert k₂ v₂ es) = insert k₂ v₂ (insert k₁ v₁ es) := by
  induction es with
  | nil =>
    have hfront : ∀ e ∈ (insert k₂ v₂ []).head?, Text.ByteLt k₁ e.1 := by
      rintro _ ⟨⟩
      exact h
    rw [insert_of_byteLt_head hfront]
    exact (insert_cons_of_byteLt h v₂ v₁ []).symm
  | cons e es ih =>
    obtain ⟨k, v⟩ := e
    by_cases hlt : Text.ByteLt k k₁
    · -- the entry in front is before both keys
      simp only [insert_cons_of_byteLt hlt, insert_cons_of_byteLt (Text.byteLt_trans hlt h), ih]
    · by_cases heq : k = k₁
      · subst heq
        simp only [insert_cons_of_byteLt h, insert_cons_self]
      · -- the first key goes in front of what is there, with the second entry or without it
        have hhead : ∀ e ∈ ((k, v) :: es).head?, Text.ByteLt k₁ e.1 := by
          rintro _ ⟨⟩
          exact Text.byteLt_trichotomy heq hlt
        have hfront : ∀ e ∈ (insert k₂ v₂ ((k, v) :: es)).head?, Text.ByteLt k₁ e.1 := by
          intro e he
          rcases head?_insert he with rfl | he
          · exact h
          · exact hhead e he
        rw [insert_of_byteLt_head hfront, insert_of_byteLt_head hhead, insert_cons_of_byteLt h]

/-- Entries of different keys may be put in in either order, as one of the keys comes before the
other. -/
theorem insert_comm {k₁ k₂ : String} (h : k₁ ≠ k₂) (v₁ v₂ : α) (es : Entries α) :
    insert k₁ v₁ (insert k₂ v₂ es) = insert k₂ v₂ (insert k₁ v₁ es) := by
  by_cases hlt : Text.ByteLt k₁ k₂
  · exact insert_comm_of_byteLt hlt v₁ v₂ es
  · exact (insert_comm_of_byteLt (Text.byteLt_trichotomy h hlt) v₂ v₁ es).symm

/-! ### What is found -/

/-- What is found is an entry of the list. -/
theorem mem_of_find? {es : Entries α} {k : String} {v : α} (h : find? es k = some v) :
    (k, v) ∈ es := by
  induction es with
  | nil => cases h
  | cons e es ih =>
    obtain ⟨k', v'⟩ := e
    unfold find? at h
    split at h
    · next heq =>
      subst heq
      cases h
      exact List.mem_cons_self
    · exact List.mem_cons_of_mem _ (ih h)

/-- Something is found exactly under the keys of the entries, in order or not. -/
theorem isSome_find?_iff {es : Entries α} {k : String} :
    (find? es k).isSome ↔ k ∈ es.map Prod.fst := by
  induction es with
  | nil => simp [find?]
  | cons e es ih =>
    obtain ⟨k', v'⟩ := e
    by_cases heq : k' = k
    · simp [find?, heq]
    · simp [find?, heq, ih, Ne.symm heq]

/-- The first of entries in order is the only one with its key: the others come strictly after
it. -/
theorem Ordered.find?_tail {k : String} {v : α} {es : Entries α} (h : Ordered ((k, v) :: es)) :
    find? es k = none := by
  rw [← Option.not_isSome_iff_eq_none, isSome_find?_iff]
  intro hmem
  obtain ⟨e, he, rfl⟩ := List.mem_map.1 hmem
  exact Text.byteLt_irrefl e.1 ((List.pairwise_cons.1 h).1 e he)

/-- In entries in order nothing is found at a key before all others. -/
theorem Ordered.not_byteLt {k : String} {e : String × α} {es : Entries α}
    (h : Ordered (e :: es)) (hfound : (find? (e :: es) k).isSome) : ¬ Text.ByteLt k e.1 := by
  intro hlt
  rcases List.mem_cons.1 (isSome_find?_iff.1 hfound) with rfl | hmem
  · exact Text.byteLt_irrefl _ hlt
  · obtain ⟨e', he', rfl⟩ := List.mem_map.1 hmem
    exact Text.byteLt_irrefl _ (Text.byteLt_trans hlt ((List.pairwise_cons.1 h).1 e' he'))

/-- Entries in order are equal if the same is found at every key. Induction on both lists: their first
keys agree, because each is found in the other list and nothing is found before its first key. -/
theorem Ordered.ext_find? {es fs : Entries α} (hes : Ordered es) (hfs : Ordered fs)
    (h : ∀ k, find? es k = find? fs k) : es = fs := by
  induction es generalizing fs with
  | nil =>
    cases fs with
    | nil => rfl
    | cons f fs => simpa [find?] using h f.1
  | cons e es ih =>
    cases fs with
    | nil => simpa [find?] using h e.1
    | cons f fs =>
      -- the first key of each list is found in the other
      have hbefore : ¬ Text.ByteLt e.1 f.1 := hfs.not_byteLt (by rw [← h e.1]; simp [find?])
      have hafter : ¬ Text.ByteLt f.1 e.1 := hes.not_byteLt (by rw [h f.1]; simp [find?])
      have hkey : e.1 = f.1 :=
        Decidable.byContradiction fun hne => hafter (Text.byteLt_trichotomy hne hbefore)
      obtain ⟨k, v⟩ := e
      obtain ⟨k', w⟩ := f
      obtain rfl : k = k' := hkey
      have hvalue : v = w := by simpa [find?] using h k
      -- below the first key both lists find the same, and at it neither finds more
      have htail : es = fs := by
        refine ih (List.pairwise_cons.1 hes).2 (List.pairwise_cons.1 hfs).2 fun key => ?_
        by_cases heq : k = key
        · rw [← heq, hes.find?_tail, hfs.find?_tail]
        · simpa [find?, heq] using h key
      rw [hvalue, htail]

end Entries

namespace KeyMap

theorem mem_keys_iff {m : KeyMap α} {k : String} : k ∈ m.keys ↔ (m.find? k).isSome :=
  Entries.isSome_find?_iff.symm

/-- No key stands twice in a map, as its keys go strictly up. -/
theorem keys_nodup (m : KeyMap α) : m.keys.Nodup := by
  refine m.keys_ordered.imp ?_
  rintro k _ hlt rfl
  exact Text.byteLt_irrefl k hlt

/-- **A map is what it holds.** Two maps with the same value at every key are equal, since both have
their entries in order. -/
theorem ext_find? {m₁ m₂ : KeyMap α} (h : ∀ k, m₁.find? k = m₂.find? k) : m₁ = m₂ := by
  obtain ⟨es, hes⟩ := m₁
  obtain ⟨fs, hfs⟩ := m₂
  obtain rfl : es = fs := hes.ext_find? hfs h
  rfl

end KeyMap

end LabelQuery
