import Mathlib.Data.List.Nodup
import Mathlib.Data.List.Perm.Subperm
import Mathlib.Order.Basic
import Mathlib.Tactic.Lemma

/-!
Looking for the first number whose name is not taken.

Different numbers have different names, so the search ends before the taken names run out.
-/

namespace Workbench.Lib.FirstFree

variable {α : Type*} [DecidableEq α] {name : ℕ → α} {taken : List α} {fuel next k : ℕ}

def firstFree (name : ℕ → α) (taken : List α) : ℕ → ℕ → Option ℕ
  | 0, _ => none
  | fuel + 1, next =>
    if name next ∈ taken then firstFree name taken fuel (next + 1) else some next

/-- What is found is free, and is the first one that is. -/
lemma firstFree_eq_some (h : firstFree name taken fuel next = some k) :
    next ≤ k ∧ name k ∉ taken ∧ ∀ j, next ≤ j → name j ∉ taken → k ≤ j := by
  induction fuel generalizing next with
  | zero => cases h
  | succ fuel ih =>
    rw [firstFree] at h
    split_ifs at h with hnext
    · obtain ⟨hle, hfree, hfirst⟩ := ih h
      refine ⟨by omega, hfree, fun j hj hname => hfirst j ?_ hname⟩
      rcases Nat.lt_or_eq_of_le hj with hlt | rfl
      · exact hlt
      · exact absurd hnext hname
    · cases h
      exact ⟨Nat.le_refl _, hnext, fun j hj _ => hj⟩

lemma taken_of_firstFree (h : firstFree name taken fuel next = none) :
    ∀ j, next ≤ j → j < next + fuel → name j ∈ taken := by
  induction fuel generalizing next with
  | zero => intro j hj hlt; omega
  | succ fuel ih =>
    intro j hj hlt
    rw [firstFree] at h
    split_ifs at h with hnext
    rcases Nat.lt_or_eq_of_le hj with hless | rfl
    · exact ih h j hless (by omega)
    · exact hnext

/-- **A free number is found** among one more than there are taken names. -/
theorem exists_firstFree (hname : Function.Injective name) (next : ℕ) :
    ∃ k, firstFree name taken (taken.length + 1) next = some k := by
  refine Option.ne_none_iff_exists'.mp fun hnone => ?_
  -- then there are more names than are taken
  have hnodup : ((List.range' next (taken.length + 1)).map name).Nodup :=
    List.Nodup.map hname (List.nodup_range' 1)
  have hsub : (List.range' next (taken.length + 1)).map name ⊆ taken := by
    intro a ha
    obtain ⟨j, hj, rfl⟩ := List.mem_map.mp ha
    obtain ⟨hle, hlt⟩ := List.mem_range'_1.mp hj
    exact taken_of_firstFree hnone j hle hlt
  have hlength := (List.subperm_of_subset hnodup hsub).length_le
  rw [List.length_map, List.length_range'] at hlength
  omega

end Workbench.Lib.FirstFree
