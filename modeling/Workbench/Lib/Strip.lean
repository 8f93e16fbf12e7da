import Mathlib.Data.List.Basic
import Mathlib.Data.List.DropRight
import Mathlib.Data.List.TakeWhile
import Mathlib.Tactic.Lemma

/-!
Taking off both ends of a list what satisfies a test.
-/

namespace Workbench.Lib.Strip

variable {α : Type*} {p : α → Bool} {l left right : List α}

def strip (p : α → Bool) (l : List α) : List α := (l.dropWhile p).rdropWhile p

/-- A list with nothing to take off. -/
def Bare (p : α → Bool) (l : List α) : Prop :=
  (∀ a ∈ l.head?, p a = false) ∧ ∀ a ∈ l.getLast?, p a = false

lemma bare_of_all (h : ∀ a ∈ l, p a = false) : Bare p l :=
  ⟨fun a ha => h a (List.mem_of_mem_head? ha), fun a ha => h a (List.mem_of_mem_getLast? ha)⟩

/-- What stands between two bare lists does not matter. -/
lemma bare_append (middle : List α) (hleft : Bare p left) (hright : Bare p right)
    (hl : left ≠ []) (hr : right ≠ []) : Bare p (left ++ middle ++ right) := by
  constructor
  · rw [List.append_assoc, List.head?_append_of_ne_nil _ hl]
    exact hleft.1
  · rw [List.getLast?_append_of_ne_nil _ hr]
    exact hright.2

lemma bare_strip (p : α → Bool) (l : List α) : Bare p (strip p l) := by
  constructor
  · intro a ha
    obtain ⟨m, hm⟩ := List.head?_eq_some_iff.mp (Option.mem_def.mp ha)
    obtain ⟨n, hn⟩ := List.rdropWhile_prefix p (l := l.dropWhile p)
    rw [← strip, hm, List.cons_append] at hn
    have hfirst := List.dropWhile_eq_self_iff.mp (List.dropWhile_idempotent p (l := l))
      (by rw [← hn]; simp)
    simpa [← hn] using hfirst
  · intro a ha
    obtain ⟨hne, rfl⟩ := List.mem_getLast?_eq_getLast ha
    have hlast := List.rdropWhile_last_not p (l.dropWhile p) hne
    exact Bool.not_eq_true _ ▸ hlast

/-- What is to be taken off at the end of a bare list is taken off. -/
lemma strip_append (h : Bare p l) (hright : ∀ a ∈ right, p a) : strip p (l ++ right) = l := by
  have hback : ∀ a ∈ right.reverse, p a := fun a ha => hright a (List.mem_reverse.mp ha)
  cases l with
  | nil =>
    have hnil : right.dropWhile p = [] := List.dropWhile_eq_nil_iff.mpr hright
    rw [List.nil_append, strip, hnil]
    rfl
  | cons a l =>
    have hfront : ((a :: l) ++ right).dropWhile p = (a :: l) ++ right := by
      rw [List.cons_append, List.dropWhile_cons_of_neg (by simp [h.1 a rfl])]
    have hlast : (a :: l).rdropWhile p = a :: l := by
      rw [List.rdropWhile_eq_self_iff]
      intro hne
      rw [h.2 _ (List.getLast?_eq_some_getLast hne)]
      exact Bool.false_ne_true
    rw [strip, hfront, List.rdropWhile, List.reverse_append, List.dropWhile_append_of_pos hback]
    exact hlast

lemma strip_eq_self (h : Bare p l) : strip p l = l := by
  have hnil : ∀ a ∈ ([] : List α), p a := by simp
  simpa using strip_append h hnil

lemma strip_strip (p : α → Bool) (l : List α) : strip p (strip p l) = strip p l :=
  strip_eq_self (bare_strip p l)

/-- What is taken off a list stands around the rest of it. -/
lemma exists_strip (p : α → Bool) (l : List α) : ∃ left right, l = left ++ strip p l ++ right ∧
    (∀ a ∈ left, p a) ∧ ∀ a ∈ right, p a := by
  have hfront := List.takeWhile_append_dropWhile (p := p) (l := l)
  have hback : strip p l ++ (l.dropWhile p).rtakeWhile p = l.dropWhile p :=
    List.rdropWhile_append_rtakeWhile
  refine ⟨l.takeWhile p, (l.dropWhile p).rtakeWhile p, ?_, ?_, ?_⟩
  · rw [List.append_assoc, hback, hfront]
  · exact fun a ha => List.mem_takeWhile_imp ha
  · exact fun a ha => List.mem_rtakeWhile_imp ha

/-- What is bare and stands between what is to be taken off is what is left of a list. -/
lemma strip_of_bare (hleft : ∀ a ∈ left, p a) (h : Bare p l) (hright : ∀ a ∈ right, p a) :
    strip p (left ++ l ++ right) = l := by
  have hfront : strip p (left ++ l ++ right) = strip p (l ++ right) := by
    rw [strip, strip, List.append_assoc, List.dropWhile_append_of_pos hleft]
  rw [hfront, strip_append h hright]

/-- What is left of a list is an end of what is left of a longer one, and less than that if
something stays of what is in front of it. -/
lemma exists_strip_append (p : α → Bool) (m l : List α) :
    ∃ v, strip p (m ++ l) = v ++ strip p l ∧ ((∃ a ∈ m, p a = false) → v ≠ []) := by
  obtain ⟨before, after, hl, hbefore, hafter⟩ := exists_strip p l
  obtain ⟨before', after', hm, hbefore', hafter'⟩ := exists_strip p m
  have hstays : (∃ a ∈ m, p a = false) → strip p m ≠ [] := by
    rintro ⟨a, ha, hp⟩ hnil
    rw [hm, hnil, List.append_nil] at ha
    rcases List.mem_append.mp ha with ha | ha
    · simp [hbefore' a ha] at hp
    · simp [hafter' a ha] at hp
  have hm' := bare_strip p m
  have hl' := bare_strip p l
  by_cases hnil : strip p l = []
  · -- nothing of the list stays: what is left is of the part in front
    refine ⟨strip p m, ?_, hstays⟩
    have hoff : ∀ a ∈ after' ++ l, p a := by
      rw [hl, hnil, List.append_nil]
      simp only [List.mem_append]
      rintro a (ha | ha | ha)
      · exact hafter' a ha
      · exact hbefore a ha
      · exact hafter a ha
    have hsplit : m ++ l = before' ++ strip p m ++ (after' ++ l) := by
      rw [← List.append_assoc, ← hm]
    rw [hnil, List.append_nil, hsplit, strip_of_bare hbefore' hm' hoff]
  · by_cases hfront : strip p m = []
    · refine ⟨[], ?_, fun h => absurd hfront (hstays h)⟩
      have hoff : ∀ a ∈ m ++ before, p a := by
        rw [hm, hfront, List.append_nil]
        simp only [List.mem_append]
        rintro a ((ha | ha) | ha)
        · exact hbefore' a ha
        · exact hafter' a ha
        · exact hbefore a ha
      have hsplit : m ++ l = (m ++ before) ++ strip p l ++ after := by
        rw [List.append_assoc m before, List.append_assoc m (before ++ strip p l), ← hl]
      rw [hsplit, strip_of_bare hoff hl' hafter, List.nil_append]
    · refine ⟨strip p m ++ (after' ++ before), ?_,
        fun _ h => hfront (List.append_eq_nil_iff.mp h).1⟩
      have hsplit : m ++ l =
          before' ++ (strip p m ++ (after' ++ before) ++ strip p l) ++ after := by
        conv_lhs => rw [hm, hl]
        simp only [List.append_assoc]
      rw [hsplit, strip_of_bare hbefore' (bare_append _ hm' hl' hfront hnil) hafter]

lemma length_strip_le (p : α → Bool) (l : List α) : (strip p l).length ≤ l.length :=
  (List.rdropWhile_prefix p (l := l.dropWhile p)).length_le.trans (List.length_dropWhile_le p l)

end Workbench.Lib.Strip
