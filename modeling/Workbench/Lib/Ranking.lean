import Workbench.Lib.StableSort

/-!
Lists in which some elements have a rank, and these are brought to the front.

Elements of one rank stay in the order in which they were, and so do those without a rank.
-/

namespace Workbench.Lib.Ranking

open List

variable {α : Type*} {rank : α → Option ℕ} {last : ℕ} {place : α → ℕ} {r s : α → α → Prop}
  {xs ys : List α}

/-- The elements that have a rank, sorted by it. -/
def named (rank : α → Option ℕ) (xs : List α) : List α :=
  ((xs.filterMap fun a => (rank a).map fun i => (a, i)).insertionSort fun a b => a.2 ≤ b.2).map
    Prod.fst

def unnamed (rank : α → Option ℕ) (xs : List α) : List α := xs.filter fun a => (rank a).isNone

/-- By the place, and by another order where the places are equal. -/
def ThenBy (place : α → ℕ) (s : α → α → Prop) (a b : α) : Prop :=
  place a < place b ∨ place a = place b ∧ s a b

/-- A rank as a place; what has no rank comes last. -/
def placeOf (rank : α → Option ℕ) (last : ℕ) (a : α) : ℕ := (rank a).getD last

section

variable [DecidableRel r] [Std.Total r] [IsTrans α r]

lemma pairwise_orderedInsert {x : α} (hs : ∀ y ∈ ys, s x y)
    (hys : ys.Pairwise fun a b => r a b ∧ (r b a → s a b)) :
    (ys.orderedInsert r x).Pairwise fun a b => r a b ∧ (r b a → s a b) := by
  induction hys with
  | nil => simp
  | @cons y ys hy hys ih =>
    by_cases hxy : r x y
    · rw [orderedInsert_cons_of_le r ys hxy]
      refine .cons ?_ (.cons hy hys)
      intro z hz
      refine ⟨?_, fun _ => hs z hz⟩
      rcases mem_cons.mp hz with rfl | hz
      · exact hxy
      · exact IsTrans.trans _ _ _ hxy (hy z hz).1
    · rw [orderedInsert_of_not_le r ys hxy]
      refine .cons ?_ (ih fun z hz => hs z (mem_cons_of_mem y hz))
      intro z hz
      rcases (mem_orderedInsert r).mp hz with rfl | hz
      · exact ⟨(Std.Total.total z y).resolve_left hxy, fun h => absurd h hxy⟩
      · exact hy z hz

/-- **A stable sort** sorts by one order, and leaves the other where that one ties. -/
theorem stable_insertionSort (hs : xs.Pairwise s) :
    (xs.insertionSort r).Pairwise fun a b => r a b ∧ (r b a → s a b) := by
  induction hs with
  | nil => simp
  | cons hx _ ih =>
    rw [insertionSort_cons]
    exact pairwise_orderedInsert (fun y hy => hx y ((mem_insertionSort r).mp hy)) ih

end

lemma perm_named : named rank xs ~ xs.filter fun a => (rank a).isSome := by
  refine ((perm_insertionSort _ _).map Prod.fst).trans (.of_eq ?_)
  induction xs with
  | nil => rfl
  | cons a xs ih => cases hrank : rank a <;> simp [hrank, ih]

lemma perm_fronted : named rank xs ++ unnamed rank xs ~ xs := by
  have hnot : unnamed rank xs = xs.filter fun a => !(rank a).isSome := by
    simp [unnamed]
  rw [hnot]
  exact (perm_named.append_right _).trans (filter_append_perm _ xs)

lemma pairwise_named (hs : xs.Pairwise s) :
    (named rank xs).Pairwise (ThenBy (placeOf rank last) s) := by
  have hpairs : (xs.filterMap fun a => (rank a).map fun i => (a, i)).Pairwise
      fun a b => s a.1 b.1 := by
    refine hs.filterMap _ ?_
    intro a b hab p hp q hq
    obtain ⟨i, -, rfl⟩ := Option.map_eq_some_iff.mp hp
    obtain ⟨j, -, rfl⟩ := Option.map_eq_some_iff.mp hq
    exact hab
  have hranked : ∀ p ∈ (xs.filterMap fun a => (rank a).map fun i => (a, i)).insertionSort
      fun a b => a.2 ≤ b.2, placeOf rank last p.1 = p.2 := by
    intro p hp
    obtain ⟨a, -, ha⟩ := mem_filterMap.mp ((mem_insertionSort _).mp hp)
    obtain ⟨i, hi, rfl⟩ := Option.map_eq_some_iff.mp ha
    simp [placeOf, hi]
  rw [named, pairwise_map]
  have hstable := stable_insertionSort (r := fun a b : α × ℕ => a.2 ≤ b.2) hpairs
  refine hstable.imp_of_mem fun {p q} hp hq hpq => ?_
  rw [ThenBy, hranked p hp, hranked q hq]
  rcases Nat.lt_or_ge p.2 q.2 with hlt | hge
  · exact .inl hlt
  · exact .inr ⟨Nat.le_antisymm hpq.1 hge, hpq.2 hge⟩

/-- **The elements with a rank come first**, in the order of their ranks. -/
theorem pairwise_fronted (hlast : ∀ a i, rank a = some i → i < last) (hs : xs.Pairwise s) :
    (named rank xs ++ unnamed rank xs).Pairwise (ThenBy (placeOf rank last) s) := by
  have hunnamed : ∀ a ∈ unnamed rank xs, placeOf rank last a = last := by
    intro a ha
    have hnone : rank a = none := by simpa using (mem_filter.mp ha).2
    simp [placeOf, hnone]
  refine pairwise_append.mpr ⟨pairwise_named hs, ?_, ?_⟩
  · refine (hs.filter _).imp_of_mem fun {a b} ha hb hab => .inr ⟨?_, hab⟩
    rw [hunnamed a ha, hunnamed b hb]
  · intro a ha b hb
    obtain ⟨i, hi⟩ := Option.isSome_iff_exists.mp (mem_filter.mp (perm_named.subset ha)).2
    rw [ThenBy, hunnamed b hb]
    exact .inl (by simpa [placeOf, hi] using hlast a i hi)

end Workbench.Lib.Ranking
