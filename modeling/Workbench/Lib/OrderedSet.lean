import Mathlib.Data.List.Nodup
import Mathlib.Data.List.Infix
import Mathlib.Tactic.Lemma

/-!
Finite sets that remember the order in which their elements were first added.
-/

namespace Workbench.Lib

@[ext] structure OrderedSet (α : Type*) where
  elements : List α
  nodup : elements.Nodup

namespace OrderedSet

variable {α : Type*}

def empty : OrderedSet α := ⟨[], .nil⟩

@[simp] lemma elements_empty : (empty : OrderedSet α).elements = [] := rfl

variable [DecidableEq α]

def insert (s : OrderedSet α) (a : α) : OrderedSet α :=
  if h : a ∈ s.elements then s
  else ⟨s.elements ++ [a], List.nodup_append.mpr
    ⟨s.nodup, List.nodup_singleton a, fun _ hx _ hy hxy =>
      h (List.mem_singleton.mp hy ▸ hxy ▸ hx)⟩⟩

def insertAll (s : OrderedSet α) (as : List α) : OrderedSet α := as.foldl insert s

def erase (s : OrderedSet α) (a : α) : OrderedSet α := ⟨s.elements.erase a, s.nodup.erase a⟩

variable {s : OrderedSet α} {a b : α} {as : List α}

lemma mem_insert : b ∈ (s.insert a).elements ↔ b ∈ s.elements ∨ b = a := by
  unfold insert
  split
  · next h =>
    constructor
    · exact .inl
    · rintro (hb | rfl)
      · exact hb
      · exact h
  · simp

lemma mem_erase : b ∈ (s.erase a).elements ↔ b ≠ a ∧ b ∈ s.elements := s.nodup.mem_erase_iff

lemma prefix_insert : s.elements <+: (s.insert a).elements := by
  unfold insert
  split
  · exact List.prefix_refl _
  · exact List.prefix_append _ _

lemma insertAll_cons : s.insertAll (a :: as) = (s.insert a).insertAll as := rfl

lemma mem_insertAll : b ∈ (s.insertAll as).elements ↔ b ∈ s.elements ∨ b ∈ as := by
  induction as generalizing s with
  | nil => simp [insertAll]
  | cons a as ih => rw [insertAll_cons, ih, mem_insert, List.mem_cons, or_assoc]

/-- What is added goes behind what is there. -/
lemma prefix_insertAll : s.elements <+: (s.insertAll as).elements := by
  induction as generalizing s with
  | nil => exact List.prefix_refl _
  | cons a as ih => exact prefix_insert.trans ih

end OrderedSet

end Workbench.Lib
