import LabelQuery.Proofs.Text.Run

/-!
# Text — items with separators

Items that are written with a separator between them can be read back if each of them can be told from
what follows it, and what follows the last one does not begin with the separator.

* `SelfEnding p P f` — an item with `P` and the text after it can be told apart in only one way.
* `chain_append_inj` — so can a chain of such items and the text after it.
-/

namespace LabelQuery.Text

variable {α β : Type} {f : α → List Char} {P : α → Prop} {p : Char → Bool} {sep : List Char}

/-- The items in order, each after the separator. -/
def chain (sep : List Char) (f : α → List Char) (xs : List α) : List Char :=
  xs.flatMap fun x => sep ++ f x

@[simp] theorem chain_nil : chain sep f [] = [] := rfl

@[simp] theorem chain_cons (x : α) (xs : List α) :
    chain sep f (x :: xs) = sep ++ f x ++ chain sep f xs := rfl

@[simp] theorem chain_append (xs ys : List α) :
    chain sep f (xs ++ ys) = chain sep f xs ++ chain sep f ys :=
  List.flatMap_append

@[simp] theorem chain_map (g : β → α) (xs : List β) :
    chain sep f (xs.map g) = chain sep (fun x => f (g x)) xs := by
  unfold chain
  rw [List.flatMap_map]

/-- Items with a separator between them are the first one and the chain of the others. Induction on
the others; this is how the texts that are joined by `intercalate` become chains. -/
theorem toList_intercalate_cons (sep : String) (g : α → String) (x : α) (xs : List α) :
    (sep.intercalate ((x :: xs).map g)).toList
      = (g x).toList ++ chain sep.toList (fun y => (g y).toList) xs := by
  induction xs generalizing x with
  | nil => simp
  | cons y ys ih =>
    have htail := ih y
    rw [List.map_cons] at htail
    rw [List.map_cons, List.map_cons, String.intercalate_cons_cons, String.toList_append, htail,
      chain_cons]
    simp

/-! ## Reading a chain back -/

/-- An item with `P` and a text after it that `p` stops at can be told apart in only one way. -/
def SelfEnding (p : Char → Bool) (P : α → Prop) (f : α → List Char) : Prop :=
  ∀ ⦃a b : α⦄ ⦃s t : List Char⦄, P a → P b → Stops p s → Stops p t →
    f a ++ s = f b ++ t → a = b ∧ s = t

/-- A chain starts with its separator, or with the text after it if it is empty, and `p` stops at
both. So an item may stand before a chain and still be told from it. -/
theorem stops_chain (hsep : ∀ s, Stops p (sep ++ s)) {s : List Char} (hs : Stops p s)
    (xs : List α) : Stops p (chain sep f xs ++ s) := by
  cases xs with
  | nil => exact hs
  | cons x xs =>
    rw [chain_cons, List.append_assoc, List.append_assoc]
    exact hsep _

/-- **A chain of items that can be told from what follows them can be told from what follows it.**
Induction on the left chain, with a case split on the right one. When one of them ends first, the
text after it would begin with the separator, which the last two hypotheses rule out. -/
theorem chain_append_inj (hitem : SelfEnding p P f) (hsep : ∀ s, Stops p (sep ++ s))
    {xs ys : List α} {s t : List Char} (hxs : ∀ x ∈ xs, P x) (hys : ∀ y ∈ ys, P y)
    (hs : Stops p s) (ht : Stops p t) (hends : ¬ sep <+: s) (hendt : ¬ sep <+: t)
    (h : chain sep f xs ++ s = chain sep f ys ++ t) : xs = ys ∧ s = t := by
  induction xs generalizing ys with
  | nil =>
    cases ys with
    | nil => exact ⟨rfl, h⟩
    | cons y ys =>
      -- the left chain has ended, but the right one goes on with a separator
      refine absurd ⟨f y ++ chain sep f ys ++ t, ?_⟩ hends
      show sep ++ (f y ++ chain sep f ys ++ t) = s
      rw [chain_nil, List.nil_append] at h
      rw [h, chain_cons]
      simp only [List.append_assoc]
  | cons x xs ih =>
    cases ys with
    | nil =>
      -- the same with the two sides changed over
      refine absurd ⟨f x ++ chain sep f xs ++ s, ?_⟩ hendt
      show sep ++ (f x ++ chain sep f xs ++ s) = t
      rw [chain_nil, List.nil_append] at h
      rw [← h, chain_cons]
      simp only [List.append_assoc]
    | cons y ys =>
      rw [chain_cons, chain_cons] at h
      simp only [List.append_assoc] at h
      -- both go on: the separators cancel, and the items can be told from the chains after them
      have hrest : f x ++ (chain sep f xs ++ s) = f y ++ (chain sep f ys ++ t) :=
        List.append_cancel_left h
      obtain ⟨hxy, htails⟩ := hitem (hxs x List.mem_cons_self) (hys y List.mem_cons_self)
        (stops_chain hsep hs xs) (stops_chain hsep ht ys) hrest
      obtain ⟨hlists, hends'⟩ := ih (fun z hz => hxs z (List.mem_cons_of_mem _ hz))
        (fun z hz => hys z (List.mem_cons_of_mem _ hz)) htails
      exact ⟨by rw [hxy, hlists], hends'⟩

end LabelQuery.Text
