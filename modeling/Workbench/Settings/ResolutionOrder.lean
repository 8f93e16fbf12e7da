import Workbench.Settings.GlobalRoute
import Workbench.Web.ThreadOrder

/-!
The order in which a launch tries the offerings of a model, and the order in which they are shown.

The resolver goes by priority and then by id, where ids are compared unit by unit. The settings
show the offerings by priority too, but break ties by the names.
-/

namespace Workbench.Settings

open List Workbench.Lib.StableSort
open Workbench.Web.Threads (utf16Of unitsLe utf16Of_injective unitsLe_total unitsLe_trans
  unitsLe_antisymm)

/-- `a < b` for texts -/
def textLt (a b : String) : Bool := !unitsLe (utf16Of b) (utf16Of a)

def byPriority (a b : EffectiveInferenceRow) : Ordering :=
  if a.priority ≠ b.priority then compare a.priority b.priority
  else if textLt a.offeringId b.offeringId then .lt
  else .gt

/-- A sort leaves `left` before `right`: the comparator does not put `right` first. -/
def ResolvesBefore (left right : EffectiveInferenceRow) : Prop := byPriority right left ≠ .lt

instance : DecidableRel ResolvesBefore := fun left right =>
  inferInstanceAs (Decidable (byPriority right left ≠ .lt))

def resolutionOrder (rows : List EffectiveInferenceRow) : List EffectiveInferenceRow :=
  rows.insertionSort ResolvesBefore

lemma resolvesBefore_iff {left right : EffectiveInferenceRow} :
    ResolvesBefore left right ↔ left.priority < right.priority ∨
      left.priority = right.priority ∧
        unitsLe (utf16Of left.offeringId) (utf16Of right.offeringId) := by
  unfold ResolvesBefore byPriority textLt
  by_cases h : right.priority = left.priority
  · cases hle : unitsLe (utf16Of left.offeringId) (utf16Of right.offeringId) <;> simp [h]
  · have hne : left.priority ≠ right.priority := Ne.symm h
    simp only [ne_eq, h, not_false_eq_true, if_true, compare_lt_iff_lt, not_lt, hne, false_and,
      or_false]
    omega

instance : Std.Total ResolvesBefore where
  total left right := by
    rw [resolvesBefore_iff, resolvesBefore_iff]
    have hids := unitsLe_total (utf16Of left.offeringId) (utf16Of right.offeringId)
    rcases lt_trichotomy left.priority right.priority with h | h | h
    · exact .inl (.inl h)
    · exact hids.imp (fun hle => .inr ⟨h, hle⟩) fun hle => .inr ⟨h.symm, hle⟩
    · exact .inr (.inl h)

instance : IsTrans EffectiveInferenceRow ResolvesBefore where
  trans a b c hab hbc := by
    rw [resolvesBefore_iff] at hab hbc ⊢
    rcases hab with hab | ⟨hab, hids⟩ <;> rcases hbc with hbc | ⟨hbc, hids'⟩
    · exact .inl (hab.trans hbc)
    · exact .inl (hbc ▸ hab)
    · exact .inl (hab ▸ hbc)
    · exact .inr ⟨hab.trans hbc, unitsLe_trans hids hids'⟩

/-! ### The order that is shown -/

/-- What the settings compare where the priorities are equal. -/
def tieBreak (localeCompare : String → String → Ordering) (left right : EffectiveInferenceRow) :
    Ordering :=
  (localeCompare left.canonicalName right.canonicalName).then
    ((localeCompare left.providerName right.providerName).then
      (localeCompare left.offeringId right.offeringId))

/-- Of two offerings of one priority, the one that is shown first has the smaller id. -/
def TiesAgree (localeCompare : String → String → Ordering) (rows : List EffectiveInferenceRow) :
    Prop :=
  rows.Pairwise fun left right => left.priority = right.priority →
    (tieBreak localeCompare left right ≠ .gt ↔
      unitsLe (utf16Of left.offeringId) (utf16Of right.offeringId))

section

variable {localeCompare : String → String → Ordering}

lemma precedes_iff {left right : EffectiveInferenceRow} :
    Precedes localeCompare left right ↔ left.priority < right.priority ∨
      left.priority = right.priority ∧ tieBreak localeCompare left right ≠ .gt := by
  have hsplit : compareRows localeCompare left right =
      (compare left.priority right.priority).then (tieBreak localeCompare left right) := rfl
  rw [Precedes, hsplit, Ordering.isLE_iff_ne_gt]
  rcases lt_trichotomy left.priority right.priority with h | h | h
  · rw [compare_lt_iff_lt.mpr h]
    simp [h]
  · rw [compare_eq_iff_eq.mpr h]
    simp [h]
  · rw [compare_gt_iff_gt.mpr h]
    simp [h.not_gt, h.ne']

variable [Std.TransCmp localeCompare]

/-- **The order shown is the order used** if and only if the names of the offerings break every tie
as their ids do. -/
theorem shown_eq_used_iff (rows : List EffectiveInferenceRow) :
    orderedGlobalInferenceRows localeCompare rows = resolutionOrder rows ↔
      TiesAgree localeCompare rows := by
  rw [orderedGlobalInferenceRows, resolutionOrder, insertionSort_eq_iff, TiesAgree]
  have hpair : ∀ left right : EffectiveInferenceRow,
      (Precedes localeCompare left right ↔ ResolvesBefore left right) ↔
        (left.priority = right.priority → (tieBreak localeCompare left right ≠ .gt ↔
          unitsLe (utf16Of left.offeringId) (utf16Of right.offeringId))) := by
    intro left right
    rw [precedes_iff, resolvesBefore_iff]
    rcases lt_trichotomy left.priority right.priority with h | h | h
    · simp [h, h.ne]
    · simp [h]
    · simp [h.not_gt, h.ne']
  simp only [hpair]

end

/-- Two providers that offer one model, at the priority that every offering starts with. -/
def seededPair : List EffectiveInferenceRow :=
  [⟨"offering-2", "model", "anthropic", 0, .setHere⟩,
    ⟨"offering-1", "model", "openai", 0, .setHere⟩]

theorem shown_eq_used_iff_seeded :
    orderedGlobalInferenceRows compare seededPair = resolutionOrder seededPair ↔
      TiesAgree compare seededPair :=
  shown_eq_used_iff seededPair

/-- The launch tries first what is shown second. -/
theorem shown_second_used_first :
    (orderedGlobalInferenceRows compare seededPair).map (·.offeringId) =
        ["offering-2", "offering-1"] ∧
      (resolutionOrder seededPair).map (·.offeringId) = ["offering-1", "offering-2"] := by
  decide

end Workbench.Settings
