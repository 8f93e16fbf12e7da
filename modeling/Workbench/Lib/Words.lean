import Mathlib.Data.List.Basic
import Mathlib.Data.List.Infix
import Mathlib.Tactic.Lemma

/-!
Words joined with a separator.

A separator in the joined text stands between two of the words. What holds no separator and ends at
one is the end of a word, and what begins at one is the beginning of a word.
-/

namespace Workbench.Lib.Words

variable {α : Type*} {s : α} {p : α → Prop} {ws left right : List (List α)}
  {w v x y m front back before after : List α}

lemma intercalate_cons (h : ws ≠ []) :
    [s].intercalate (w :: ws) = w ++ s :: [s].intercalate ws := by
  obtain ⟨v, ws, rfl⟩ := List.exists_cons_of_ne_nil h
  simp [List.intercalate]

lemma intercalate_singleton : [s].intercalate [w] = w := by simp [List.intercalate]

lemma mem_of_mem_intercalate {a : α} (h : a ∈ [s].intercalate ws) : a = s ∨ ∃ w ∈ ws, a ∈ w := by
  induction ws with
  | nil => simp [List.intercalate] at h
  | cons w ws ih =>
    by_cases hlast : ws = []
    · subst hlast
      rw [intercalate_singleton] at h
      exact .inr ⟨w, List.mem_singleton_self w, h⟩
    · rw [intercalate_cons hlast] at h
      rcases List.mem_append.mp h with h | h
      · exact .inr ⟨w, List.mem_cons_self, h⟩
      rcases List.mem_cons.mp h with h | h
      · exact .inl h
      rcases ih h with h | ⟨v, hv, ha⟩
      · exact .inl h
      · exact .inr ⟨v, List.mem_cons_of_mem w hv, ha⟩

/-- What stands before the last word ends in a separator. -/
lemma intercalate_concat (left : List (List α)) (w : List α) :
    ∃ front, [s].intercalate (left ++ [w]) = front ++ w ∧ ∀ c ∈ front.getLast?, c = s := by
  induction left with
  | nil => exact ⟨[], by rw [List.nil_append, List.nil_append, intercalate_singleton], by simp⟩
  | cons u left ih =>
    obtain ⟨front, hfront, hlast⟩ := ih
    refine ⟨u ++ s :: front, ?_, ?_⟩
    · rw [List.cons_append, intercalate_cons (by simp), hfront]
      simp
    · intro c hc
      cases front with
      | nil => simpa [eq_comm] using hc
      | cons d front => exact hlast c (by simpa using hc)

/-- What stands behind the first word begins with a separator. -/
lemma intercalate_head (v : List α) (right : List (List α)) :
    ∃ back, [s].intercalate (v :: right) = v ++ back ∧ ∀ c ∈ back.head?, c = s := by
  by_cases h : right = []
  · exact ⟨[], by rw [h, intercalate_singleton, List.append_nil], by simp⟩
  · exact ⟨_, intercalate_cons h, by simp⟩

lemma intercalate_append : [s].intercalate (left ++ w :: v :: right) =
    [s].intercalate (left ++ [w]) ++ s :: [s].intercalate (v :: right) := by
  induction left with
  | nil =>
    rw [List.nil_append, List.nil_append, intercalate_cons (by simp), intercalate_singleton]
  | cons u left ih =>
    rw [List.cons_append, List.cons_append, intercalate_cons (by simp), intercalate_cons (by simp),
      ih]
    simp

/-- **A separator in joined words** stands between two of them. -/
theorem exists_of_intercalate (hws : ∀ w ∈ ws, s ∉ w) (h : [s].intercalate ws = x ++ s :: y) :
    ∃ left w v right, ws = left ++ w :: v :: right ∧ x = [s].intercalate (left ++ [w]) ∧
      y = [s].intercalate (v :: right) := by
  induction ws generalizing x with
  | nil => simp [List.intercalate] at h
  | cons w ws ih =>
    obtain ⟨hw, hrest⟩ := List.forall_mem_cons.mp hws
    by_cases hlast : ws = []
    · rw [hlast, intercalate_singleton] at h
      exact absurd (by simp [h]) hw
    · obtain ⟨v, right, rfl⟩ := List.exists_cons_of_ne_nil hlast
      rw [intercalate_cons hlast] at h
      rcases List.append_eq_append_iff.mp h with ⟨m, rfl, hm⟩ | ⟨m, hm, hbehind⟩
      · cases m with
        | nil =>
          obtain ⟨-, rfl⟩ := List.cons.inj hm
          exact ⟨[], w, v, right, rfl, by simp, rfl⟩
        | cons c m =>
          -- the separator is behind the first one
          rw [List.cons_append, List.cons.injEq] at hm
          obtain ⟨rfl, hm⟩ := hm
          obtain ⟨left, u, t, more, hsplit, rfl, rfl⟩ := ih hrest hm
          refine ⟨w :: left, u, t, more, by rw [hsplit]; rfl, ?_, rfl⟩
          rw [List.cons_append, intercalate_cons (by simp)]
      · cases m with
        | nil =>
          obtain ⟨-, rfl⟩ := List.cons.inj hbehind
          exact ⟨[], w, v, right, rfl, by simp [hm], rfl⟩
        | cons c m =>
          rw [List.cons_append, List.cons.injEq] at hbehind
          exact absurd (by simp [hm, hbehind.1]) hw

/-- What holds no separator and ends with a word is the end of the word. -/
lemma suffix_of_append (hm : ∀ c ∈ m, ¬ p c) (hfront : ∀ c ∈ front.getLast?, p c)
    (h : before ++ m = front ++ w) : ∃ u, w = u ++ m ∧ before = front ++ u := by
  rcases List.append_eq_append_iff.mp h with ⟨u, rfl, rfl⟩ | ⟨u, rfl, rfl⟩
  · -- the front would end within
    by_cases hu : u = []
    · exact ⟨[], by simp [hu], by simp [hu]⟩
    · have hlast : p (u.getLast hu) := hfront _ (by
        rw [List.getLast?_append_of_ne_nil _ hu, List.getLast?_eq_getLast_of_ne_nil hu]
        rfl)
      exact absurd hlast (hm _ (List.mem_append_left _ (List.getLast_mem hu)))
  · exact ⟨u, rfl, rfl⟩

/-- What holds no separator and begins with a word is the beginning of the word. -/
lemma prefix_of_append (hm : ∀ c ∈ m, ¬ p c) (hback : ∀ c ∈ back.head?, p c)
    (h : m ++ after = w ++ back) : ∃ u, w = m ++ u ∧ after = u ++ back := by
  rcases List.append_eq_append_iff.mp h with ⟨u, rfl, hu⟩ | ⟨u, rfl, hu⟩
  · exact ⟨u, rfl, hu⟩
  · cases u with
    | nil => exact ⟨[], by simp, by simpa using hu.symm⟩
    | cons c u =>
      have hc : p c := hback c (by rw [hu]; rfl)
      exact absurd hc (hm c (by simp))

/-- The pieces of a list that is split hold none of what it is split at. -/
lemma of_mem_splitOnP {q : α → Bool} (h : w ∈ x.splitOnP q) : ∀ c ∈ w, q c = false := by
  induction x generalizing w with
  | nil =>
    rw [List.splitOnP_nil, List.mem_singleton] at h
    simp [h]
  | cons a x ih =>
    rw [List.splitOnP_cons_eq_if_modifyHead] at h
    split at h
    · rcases List.mem_cons.mp h with rfl | h
      · simp
      · exact ih h
    · next ha =>
      obtain ⟨first, more, hsplit⟩ := List.exists_cons_of_ne_nil (List.splitOnP_ne_nil q x)
      rw [hsplit, List.modifyHead_cons] at h
      rcases List.mem_cons.mp h with rfl | h
      · have hfirst := ih (by rw [hsplit]; exact List.mem_cons_self)
        exact List.forall_mem_cons.mpr ⟨by simpa using ha, hfirst⟩
      · exact ih (by rw [hsplit]; exact List.mem_cons_of_mem _ h)

/-- The pieces of a list that is split stand in it. -/
lemma infix_of_mem_splitOnP {q : α → Bool} (h : w ∈ x.splitOnP q) : w <:+: x := by
  suffices hboth : ∀ head tail, x.splitOnP q = head :: tail →
      head <+: x ∧ ∀ piece ∈ tail, piece <:+: x by
    obtain ⟨head, tail, hsplit⟩ := List.exists_cons_of_ne_nil (List.splitOnP_ne_nil q x)
    obtain ⟨hhead, htail⟩ := hboth head tail hsplit
    rw [hsplit] at h
    rcases List.mem_cons.mp h with rfl | h
    · exact hhead.isInfix
    · exact htail w h
  clear h
  induction x with
  | nil =>
    intro head tail h
    obtain ⟨rfl, rfl⟩ := List.cons.inj h.symm
    simp
  | cons a x ih =>
    intro head tail h
    obtain ⟨first, others, hsplit⟩ := List.exists_cons_of_ne_nil (List.splitOnP_ne_nil q x)
    obtain ⟨hfirst, hothers⟩ := ih first others hsplit
    have hmore : ∀ {piece}, piece <:+: x → piece <:+: a :: x := fun hpiece =>
      List.infix_cons hpiece
    rw [List.splitOnP_cons_eq_if_modifyHead, hsplit] at h
    split at h
    · obtain ⟨rfl, rfl⟩ := List.cons.inj h
      refine ⟨List.nil_prefix, fun piece hpiece => hmore ?_⟩
      rcases List.mem_cons.mp hpiece with rfl | hpiece
      · exact hfirst.isInfix
      · exact hothers piece hpiece
    · obtain ⟨rfl, rfl⟩ := List.cons.inj h
      exact ⟨List.cons_prefix_cons.mpr ⟨rfl, hfirst⟩,
        fun piece hpiece => hmore (hothers piece hpiece)⟩

end Workbench.Lib.Words
