import Mathlib.Data.List.Chain
import Mathlib.Data.List.Sort
import Mathlib.Tactic.Lemma

/-!
Stable sorting of a list in which one stretch has changed.

The order is any total preorder: two elements may stand at the same place in it, and then the
sorted list keeps them as they were.
-/

namespace Workbench.Lib.StableSort

open List

variable {α : Type*} {r : α → α → Prop} {xs ys : List α}

/-- `a` stands before `b`, not beside it. -/
def Before (r : α → α → Prop) (a b : α) : Prop := r a b ∧ ¬ r b a

lemma eq_of_pairwise_before (hs : ys.Pairwise (Before r)) {a b : α} (ha : a ∈ ys) (hb : b ∈ ys)
    (hab : r a b) (hba : r b a) : a = b := by
  induction hs with
  | nil => simp at ha
  | cons hz _ ih =>
    rcases mem_cons.mp ha with rfl | ha' <;> rcases mem_cons.mp hb with rfl | hb'
    · rfl
    · exact absurd hba (hz b hb').2
    · exact absurd hab (hz a ha').2
    · exact ih ha' hb'

/-- A list made of three sorted ones is sorted if it is where they meet. -/
lemma pairwise_stretch [IsTrans α r] {mid : List α} (hx : xs.Pairwise r) (hm : mid.Pairwise r)
    (hy : ys.Pairwise r) (hne : mid ≠ []) :
    (xs ++ mid ++ ys).Pairwise r ↔
      (∀ x ∈ xs.getLast?, ∀ m ∈ mid.head?, r x m) ∧ ∀ m ∈ mid.getLast?, ∀ y ∈ ys.head?, r m y := by
  rw [← isChain_iff_pairwise] at hx hm hy ⊢
  rw [isChain_append, isChain_append, getLast?_append_of_ne_nil xs hne]
  constructor
  · rintro ⟨⟨-, -, h⟩, -, h'⟩
    exact ⟨h, h'⟩
  · rintro ⟨h, h'⟩
    exact ⟨⟨hx, hm, h⟩, hy, h'⟩

variable [DecidableRel r]

lemma orderedInsert_append {x : α} (h : ∀ y ∈ ys, r x y) :
    (xs ++ ys).orderedInsert r x = xs.orderedInsert r x ++ ys := by
  induction xs with
  | nil =>
    cases ys with
    | nil => rfl
    | cons y ys => exact orderedInsert_cons_of_le r ys (h y (by simp))
  | cons z zs ih =>
    by_cases hz : r x z
    · rw [List.cons_append, orderedInsert_cons_of_le r _ hz, orderedInsert_cons_of_le r _ hz]
      rfl
    · rw [List.cons_append, orderedInsert_of_not_le r _ hz, orderedInsert_of_not_le r _ hz, ih]
      rfl

/-- Lists that stand one before the other are sorted each for itself. -/
lemma insertionSort_append (h : ∀ x ∈ xs, ∀ y ∈ ys, r x y) :
    (xs ++ ys).insertionSort r = xs.insertionSort r ++ ys.insertionSort r := by
  induction xs with
  | nil => rfl
  | cons x xs ih =>
    rw [List.cons_append, insertionSort_cons, insertionSort_cons,
      ih fun x' hx' => h x' (mem_cons_of_mem x hx')]
    refine orderedInsert_append fun y hy => ?_
    exact h x mem_cons_self y ((mem_insertionSort r).mp hy)

/-- Elements that are all at one place in the order stay as they are. -/
lemma filter_insertionSort {p : α → Bool} (h : ∀ a b, p a → p b → r a b) (xs : List α) :
    (xs.insertionSort r).filter p = xs.filter p := by
  have hinsert (x : α) (ys : List α) :
      (ys.orderedInsert r x).filter p = if p x then x :: ys.filter p else ys.filter p := by
    induction ys with
    | nil => by_cases hx : p x <;> simp [hx]
    | cons y ys ih =>
      by_cases hxy : r x y
      · rw [orderedInsert_cons_of_le r ys hxy, List.filter_cons]
      · rw [orderedInsert_of_not_le r ys hxy, List.filter_cons, ih]
        by_cases hx : p x
        · have hy : ¬ p y := fun hy => hxy (h x y hx hy)
          simp [hx, hy]
        · simp [hx, List.filter_cons]
  induction xs with
  | nil => rfl
  | cons x xs ih => rw [insertionSort_cons, hinsert, ih, List.filter_cons]

/-- A list without ties has one sorted order. -/
lemma insertionSort_of_perm [Std.Total r] [IsTrans α r] (hp : xs ~ ys)
    (hs : ys.Pairwise (Before r)) : xs.insertionSort r = ys := by
  have hsorted : ys.Pairwise r := hs.imp And.left
  refine Perm.eq_of_pairwise ?_ (pairwise_insertionSort r xs) hsorted
    ((perm_insertionSort r xs).trans hp)
  intro a b ha hb
  exact eq_of_pairwise_before hs (hp.subset ((mem_insertionSort r).mp ha)) hb

/-- **Sorting after a change of one stretch** leaves the rest in place and puts the stretch in its
own order, if and only if that is sorted as a whole. -/
theorem insertionSort_stretch [Std.Total r] [IsTrans α r] {old new : List α} (hp : old ~ new)
    (hn : new.Pairwise (Before r)) :
    (xs ++ old ++ ys).insertionSort r = xs ++ new ++ ys ↔ (xs ++ new ++ ys).Pairwise r := by
  constructor
  · intro h
    rw [← h]
    exact pairwise_insertionSort r _
  · intro h
    obtain ⟨hxn, hys, hcross⟩ := pairwise_append.mp h
    obtain ⟨hxs, -, hxnew⟩ := pairwise_append.mp hxn
    have hold : ∀ x ∈ xs, ∀ y ∈ old, r x y := fun x hx y hy => hxnew x hx y (hp.subset hy)
    have hrest : ∀ x ∈ xs ++ old, ∀ y ∈ ys, r x y := by
      intro x hx y hy
      refine hcross x ?_ y hy
      rcases mem_append.mp hx with hx | hx
      · exact mem_append_left _ hx
      · exact mem_append_right _ (hp.subset hx)
    rw [insertionSort_append hrest, insertionSort_append hold, hxs.insertionSort_eq,
      insertionSort_of_perm hp hn, hys.insertionSort_eq]

lemma orderedInsert_congr {s : α → α → Prop} [DecidableRel s] {x : α}
    (h : ∀ y ∈ ys, (r x y ↔ s x y)) : ys.orderedInsert r x = ys.orderedInsert s x := by
  induction ys with
  | nil => rfl
  | cons y ys ih =>
    have hy := h y mem_cons_self
    have hys := ih fun z hz => h z (mem_cons_of_mem y hz)
    by_cases hr : r x y
    · rw [orderedInsert_cons_of_le r ys hr, orderedInsert_cons_of_le s ys (hy.mp hr)]
    · rw [orderedInsert_of_not_le r ys hr, orderedInsert_of_not_le s ys (hr ∘ hy.mpr), hys]

/-- **Two orders sort a list alike** if and only if they agree on every two of its elements, taken
as they stand in the list. -/
theorem insertionSort_eq_iff [Std.Total r] [IsTrans α r] {s : α → α → Prop} [DecidableRel s]
    [Std.Total s] [IsTrans α s] :
    xs.insertionSort r = xs.insertionSort s ↔ xs.Pairwise fun a b => (r a b ↔ s a b) := by
  constructor
  · intro h
    rw [pairwise_iff_forall_sublist]
    intro a b hab
    constructor
    · intro hr
      have hsub := h ▸ pair_sublist_insertionSort hr hab
      exact pairwise_pair.mp ((pairwise_insertionSort s xs).sublist hsub)
    · intro hs
      have hsub := h ▸ pair_sublist_insertionSort hs hab
      exact pairwise_pair.mp ((pairwise_insertionSort r xs).sublist hsub)
  · intro h
    induction h with
    | nil => rfl
    | cons hx _ ih =>
      rw [insertionSort_cons, insertionSort_cons, ih]
      exact orderedInsert_congr fun y hy => hx y ((mem_insertionSort s).mp hy)

end Workbench.Lib.StableSort
