import Mathlib.Algebra.BigOperators.Group.List.Basic
import Mathlib.Algebra.GroupWithZero.Nat
import Mathlib.Tactic.Lemma

/-!
Elements counted into the cells of a list.

Each element has a place, and what it brings is added to the cell at that place. When every place is
one of the list, the cells hold together what the elements bring.
-/

namespace Workbench.Lib.Tally

variable {α β : Type*}

/-- The cells after one more element. An element without a place changes nothing. -/
def put (place : α → Option ℕ) (add : α → β → β) (cells : List β) (a : α) : List β :=
  match place a with
  | none => cells
  | some k => cells.modify k (add a)

def fill (place : α → Option ℕ) (add : α → β → β) (cells : List β) (as : List α) : List β :=
  as.foldl (put place add) cells

variable {place : α → Option ℕ} {add : α → β → β} {cells : List β} {a : α} {as : List α} {k : ℕ}
  {measure : β → ℕ} {brought : α → ℕ}

lemma getElem?_put : (put place add cells a)[k]? =
    cells[k]?.map fun cell => if place a = some k then add a cell else cell := by
  unfold put
  cases hplace : place a with
  | none => simp
  | some j =>
    rw [List.getElem?_modify]
    by_cases hj : j = k <;> simp [hj]

lemma length_put : (put place add cells a).length = cells.length := by
  unfold put
  cases place a with
  | none => rfl
  | some k => exact List.length_modify _ _ _

/-- **A cell gets the elements of its place**, in their order. -/
theorem getElem?_fill : (fill place add cells as)[k]? = cells[k]?.map fun cell =>
    (as.filter (place · = some k)).foldl (fun cell a => add a cell) cell := by
  induction as generalizing cells with
  | nil => simp [fill]
  | cons a as ih =>
    rw [fill, List.foldl_cons, ← fill, ih, getElem?_put, Option.map_map]
    by_cases hplace : place a = some k
    · simp [hplace, Function.comp_def]
    · simp [hplace, Function.comp_def]

lemma sum_modify (hk : k < cells.length) (hadd : ∀ cell, measure (add a cell) =
    measure cell + brought a) : ((cells.modify k (add a)).map measure).sum =
      (cells.map measure).sum + brought a := by
  induction cells generalizing k with
  | nil => exact absurd hk (Nat.not_lt_zero k)
  | cons cell cells ih =>
    cases k with
    | zero =>
      rw [List.modify_zero_cons, List.map_cons, List.map_cons, List.sum_cons, List.sum_cons, hadd]
      omega
    | succ k =>
      rw [List.modify_succ_cons, List.map_cons, List.map_cons, List.sum_cons, List.sum_cons,
        ih (Nat.lt_of_succ_lt_succ hk)]
      omega

/-- **Nothing is lost**: the cells hold what they held and what the elements bring. -/
theorem sum_fill (hplace : ∀ a ∈ as, ∃ k < cells.length, place a = some k)
    (hadd : ∀ a cell, measure (add a cell) = measure cell + brought a) :
    ((fill place add cells as).map measure).sum =
      (cells.map measure).sum + (as.map brought).sum := by
  induction as generalizing cells with
  | nil => rfl
  | cons a as ih =>
    obtain ⟨⟨k, hk, ha⟩, hrest⟩ := List.forall_mem_cons.mp hplace
    have hstep : ((put place add cells a).map measure).sum =
        (cells.map measure).sum + brought a := by
      unfold put
      rw [ha]
      exact sum_modify hk (hadd a)
    have hplaced : ∀ b ∈ as, ∃ j < (put place add cells a).length, place b = some j := by
      rw [length_put]
      exact hrest
    rw [fill, List.foldl_cons, ← fill, ih hplaced, hstep, List.map_cons, List.sum_cons]
    omega

end Workbench.Lib.Tally
