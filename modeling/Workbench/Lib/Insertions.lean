import Mathlib.Data.List.Basic
import Mathlib.Data.List.Infix
import Mathlib.Order.Lattice
import Mathlib.Tactic.Lemma

/-!
Lists that are built by insertions, smaller entries first and equal ones from left to right.

The insertions that lead from one list to another in this order are determined by the two lists.
-/

namespace Workbench.Lib.Insertions

variable {α : Type*}

def insertAt (t : List α) (step : α × ℕ) : List α := t.take step.2 ++ step.1 :: t.drop step.2

def insertAll (t : List α) (steps : List (α × ℕ)) : List α := steps.foldl insertAt t

section Lists

variable {m : α} {j : ℕ} {t : List α} {steps steps' : List (α × ℕ)} {step : α × ℕ}

@[simp] lemma insertAll_nil : insertAll t [] = t := rfl

@[simp] lemma insertAll_cons :
    insertAll t (step :: steps) = insertAll (insertAt t step) steps := rfl

lemma insertAll_append : insertAll t (steps ++ steps') = insertAll (insertAll t steps) steps' :=
  List.foldl_append

@[simp] lemma length_insertAt : (insertAt t step).length = t.length + 1 := by
  simp only [insertAt, List.length_append, List.length_take, List.length_cons, List.length_drop]
  omega

lemma length_insertAll : (insertAll t steps).length = t.length + steps.length := by
  induction steps generalizing t with
  | nil => rfl
  | cons step steps ih =>
    rw [insertAll_cons, ih, length_insertAt, List.length_cons]
    omega

lemma mem_insertAt {c : α} : c ∈ insertAt t step ↔ c = step.1 ∨ c ∈ t := by
  conv_rhs => rw [← List.take_append_drop step.2 t]
  simp only [insertAt, List.mem_append, List.mem_cons]
  tauto

lemma forall_mem_insertAt {P : α → Prop} (hm : P m) (ht : ∀ c ∈ t, P c) :
    ∀ c ∈ insertAt t (m, j), P c := by
  intro c hc
  rcases mem_insertAt.1 hc with rfl | hc
  · exact hm
  · exact ht c hc

lemma sublist_insertAt : t.Sublist (insertAt t step) := by
  conv_lhs => rw [← List.take_append_drop step.2 t]
  exact (List.Sublist.refl _).append (List.sublist_cons_self _ _)

lemma sublist_insertAll : t.Sublist (insertAll t steps) := by
  induction steps generalizing t with
  | nil => exact List.Sublist.refl t
  | cons step steps ih => exact List.Sublist.trans sublist_insertAt ih

lemma mem_insertAll (h : step ∈ steps) : step.1 ∈ insertAll t steps := by
  induction steps generalizing t with
  | nil => cases h
  | cons first steps ih =>
    rcases List.mem_cons.mp h with rfl | h
    · rw [insertAll_cons]
      exact List.Sublist.subset sublist_insertAll (mem_insertAt.2 (.inl rfl))
    · exact ih h

lemma take_insertAt (h : j ≤ t.length) : (insertAt t (m, j)).take (j + 1) = t.take j ++ [m] := by
  have hlength : (t.take j).length = j := List.length_take_of_le h
  have hall : (t.take j).take (j + 1) = t.take j := List.take_of_length_le (by omega)
  rw [insertAt, List.take_append, hlength, hall]
  simp

lemma drop_insertAt (h : j ≤ t.length) : (insertAt t (m, j)).drop (j + 1) = t.drop j := by
  have hlength : (t.take j).length = j := List.length_take_of_le h
  have hnone : (t.take j).drop (j + 1) = [] := List.drop_of_length_le (by omega)
  rw [insertAt, List.drop_append, hlength, hnone]
  simp

end Lists

variable [LinearOrder α]

/-- The insertions are in order, from the entry `n` and the place behind it on, into a list of the
given length. -/
def Ordered : α → ℕ → ℕ → List (α × ℕ) → Prop
  | _, _, _, [] => True
  | n, i, length, (m, j) :: steps =>
    (n < m ∨ n = m ∧ i ≤ j) ∧ j ≤ length ∧ Ordered m (j + 1) (length + 1) steps

/-- No entry is greater than `n`, and none from `i` on is as great. -/
def Settled (n : α) (i : ℕ) (t : List α) : Prop := (∀ c ∈ t, c ≤ n) ∧ ∀ c ∈ t.drop i, c < n

variable {n m : α} {i j : ℕ} {t : List α} {steps steps' : List (α × ℕ)} {step : α × ℕ}

/-- Of an insertion nothing is seen among smaller entries. -/
lemma filter_lt_insertAt {k : α} (h : k ≤ m) :
    (insertAt t (m, j)).filter (· < k) = t.filter (· < k) := by
  conv_rhs => rw [← List.take_append_drop j t]
  rw [insertAt, List.filter_append, List.filter_append, List.filter_cons_of_neg]
  simpa using h

lemma settled_insertAt (h : Settled n i t) (hm : n < m ∨ n = m ∧ i ≤ j) (hj : j ≤ t.length) :
    Settled m (j + 1) (insertAt t (m, j)) := by
  constructor
  · intro c hc
    rcases mem_insertAt.1 hc with hsame | hmem
    · exact hsame.le
    · rcases hm with hlt | ⟨rfl, -⟩
      · exact (h.1 c hmem).trans hlt.le
      · exact h.1 c hmem
  · intro c hc
    rw [drop_insertAt hj] at hc
    rcases hm with hlt | ⟨rfl, hij⟩
    · exact (h.1 c (List.mem_of_mem_drop hc)).trans_lt hlt
    · exact h.2 c ((List.drop_sublist_drop_left t hij).subset hc)

/-- What is settled stays where it is: no insertion is among the smaller entries, and none before
the place that has been reached. -/
theorem filter_insertAll (ht : Settled n i t) (h : Ordered n i t.length steps) :
    (insertAll t steps).filter (· < n) = t.filter (· < n) ∧
      t.take i <+: (insertAll t steps).filter (· ≤ n) := by
  induction steps generalizing t n i with
  | nil =>
    refine ⟨rfl, ?_⟩
    rw [insertAll_nil, List.filter_eq_self.mpr (by simpa using ht.1)]
    exact List.take_prefix i t
  | cons step steps ih =>
    obtain ⟨m, j⟩ := step
    obtain ⟨hm, hj, hsteps⟩ := h
    have hle : n ≤ m := hm.elim le_of_lt fun h => h.1.le
    obtain ⟨hlt, hprefix⟩ := ih (settled_insertAt ht hm hj) (by rwa [length_insertAt])
    rw [take_insertAt hj] at hprefix
    rw [insertAll_cons]
    constructor
    · have hsmaller : ∀ l : List α, l.filter (· < n) = (l.filter (· < m)).filter (· < n) := by
        intro l
        rw [List.filter_filter]
        refine List.filter_congr fun c _ => ?_
        by_cases hc : c < n
        · simp [hc, hc.trans_le hle]
        · simp [hc]
      rw [hsmaller, hlt, ← hsmaller, filter_lt_insertAt hle]
    · rcases hm with hnm | ⟨rfl, hij⟩
      · -- all insertions are of greater entries
        have hsmaller : ∀ l : List α, l.filter (· ≤ n) = (l.filter (· < m)).filter (· ≤ n) := by
          intro l
          rw [List.filter_filter]
          refine List.filter_congr fun c _ => ?_
          by_cases hc : c ≤ n
          · simp [hc, hc.trans_lt hnm]
          · simp [hc]
        rw [hsmaller, hlt, filter_lt_insertAt le_rfl, ← hsmaller,
          List.filter_eq_self.mpr (by simpa using ht.1)]
        exact List.take_prefix i t
      · have htake : t.take i <+: t.take j := List.take_prefix_take_left hij
        exact (htake.trans (List.prefix_append _ _)).trans hprefix

/-- A first insertion of a smaller entry leads elsewhere. -/
lemma insertAll_ne_of_lt (ht : Settled n i t) {m' : α} {j' : ℕ}
    (h : Ordered n i t.length ((m, j) :: steps)) (h' : Ordered n i t.length ((m', j') :: steps'))
    (hlt : m < m') : insertAll t ((m, j) :: steps) ≠ insertAll t ((m', j') :: steps') := by
  intro heq
  have hsettled := settled_insertAt ht h.1 h.2.1
  have hsettled' := settled_insertAt ht h'.1 h'.2.1
  -- among the entries below `m'` one side has the first insertion, the other what it began with
  have hsub : (insertAt t (m, j)).Sublist ((insertAll t ((m, j) :: steps)).filter (· < m')) := by
    have hall : (insertAt t (m, j)).filter (· < m') = insertAt t (m, j) :=
      List.filter_eq_self.mpr fun c hc => by simpa using (hsettled.1 c hc).trans_lt hlt
    rw [← hall]
    exact sublist_insertAll.filter _
  have hsame := (filter_insertAll hsettled' (by
    rw [length_insertAt]
    exact h'.2.2)).1
  rw [filter_lt_insertAt le_rfl] at hsame
  rw [heq, insertAll_cons, hsame] at hsub
  have hlength := hsub.length_le
  have hfilter := List.length_filter_le (fun c => decide (c < m')) t
  rw [length_insertAt] at hlength
  omega

/-- A first insertion further to the left leads elsewhere. -/
lemma insertAll_ne_of_place (ht : Settled n i t) {j' : ℕ}
    (h : Ordered n i t.length ((m, j) :: steps)) (h' : Ordered n i t.length ((m, j') :: steps'))
    (hlt : j < j') : insertAll t ((m, j) :: steps) ≠ insertAll t ((m, j') :: steps') := by
  intro heq
  have hprefix := (filter_insertAll (settled_insertAt ht h.1 h.2.1) (by
    rw [length_insertAt]
    exact h.2.2)).2
  have hprefix' := (filter_insertAll (settled_insertAt ht h'.1 h'.2.1) (by
    rw [length_insertAt]
    exact h'.2.2)).2
  rw [take_insertAt h.2.1] at hprefix
  rw [take_insertAt h'.2.1, ← insertAll_cons, ← heq, insertAll_cons] at hprefix'
  -- so the entry stands there already
  have hshort : t.take j ++ [m] <+: t.take j' := by
    refine List.prefix_of_prefix_length_le hprefix ((List.prefix_append _ _).trans hprefix') ?_
    rw [List.length_append, List.length_take_of_le h.2.1, List.length_take_of_le h'.2.1]
    exact hlt
  obtain ⟨rest, hrest⟩ := hshort.trans (List.take_prefix j' t)
  have hdrop : t.drop j = m :: rest := by
    have hlength : (t.take j).length = j := List.length_take_of_le h.2.1
    have hleft : (t.take j ++ ([m] ++ rest)).drop (t.take j).length = [m] ++ rest :=
      List.drop_left
    rwa [← List.append_assoc, hrest, hlength] at hleft
  have hmem : m ∈ t.drop j := hdrop ▸ List.mem_cons_self
  rcases h.1 with hnm | ⟨rfl, hij⟩
  · exact absurd (ht.1 m (List.mem_of_mem_drop hmem)) (not_le.mpr hnm)
  · exact lt_irrefl n (ht.2 n ((List.drop_sublist_drop_left t hij).subset hmem))

/-- **The insertions in order are determined** by where they start and what they lead to. -/
theorem eq_of_insertAll (ht : Settled n i t) (h : Ordered n i t.length steps)
    (h' : Ordered n i t.length steps') (heq : insertAll t steps = insertAll t steps') :
    steps = steps' := by
  induction steps generalizing t n i steps' with
  | nil =>
    have hlength := congrArg List.length heq
    rw [length_insertAll, length_insertAll, List.length_nil] at hlength
    exact (List.length_eq_zero_iff.mp (by omega)).symm
  | cons step steps ih =>
    obtain ⟨m, j⟩ := step
    cases steps' with
    | nil =>
      have hlength := congrArg List.length heq
      rw [length_insertAll, length_insertAll, List.length_nil, List.length_cons] at hlength
      omega
    | cons step' steps' =>
      obtain ⟨m', j'⟩ := step'
      obtain rfl : m = m' := by
        rcases lt_trichotomy m m' with hlt | hsame | hgt
        · exact absurd heq (insertAll_ne_of_lt ht h h' hlt)
        · exact hsame
        · exact absurd heq.symm (insertAll_ne_of_lt ht h' h hgt)
      obtain rfl : j = j' := by
        rcases lt_trichotomy j j' with hlt | hsame | hgt
        · exact absurd heq (insertAll_ne_of_place ht h h' hlt)
        · exact hsame
        · exact absurd heq.symm (insertAll_ne_of_place ht h' h hgt)
      have hrest := ih (settled_insertAt ht h.1 h.2.1) (by
        rw [length_insertAt]
        exact h.2.2) (by
        rw [length_insertAt]
        exact h'.2.2) heq
      rw [hrest]

end Workbench.Lib.Insertions
