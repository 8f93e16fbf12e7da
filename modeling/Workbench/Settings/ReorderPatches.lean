import Workbench.Settings.ResolutionOrder

/-!
Exchanging two neighbours in the order in which the offerings of a model are tried.

The two get new priorities between those of the rows beside them. Where these leave no room for two
integers the pair takes their own values, or passes one of them, and then the ids decide.
-/

namespace Workbench.Settings

open List Workbench.Lib.StableSort
open Workbench.Web.Threads (utf16Of unitsLe utf16Of_injective unitsLe_total
  unitsLe_antisymm)

inductive ReorderDirection
  | up
  | down
  deriving DecidableEq, Repr

/-- `model[index]`; there is none at a negative index. -/
def rowAt (model : List EffectiveInferenceRow) (index : ℤ) : Option EffectiveInferenceRow :=
  if index < 0 then none else model[index.toNat]?

/-- The priorities of the row that is then the earlier one and of the later one. -/
def reorderPriorities (lowerBound upperBound : Option ℤ) (base : ℤ) : ℤ × ℤ :=
  match lowerBound, upperBound with
  | some lowerBound, some upperBound =>
    let gap := upperBound - lowerBound
    if gap ≥ 3 then (lowerBound + 1, upperBound - 1)
    else if gap ≥ 1 then (lowerBound, upperBound)
    else (lowerBound, lowerBound + 1)
  | some lowerBound, none => (lowerBound + 1, lowerBound + 2)
  | none, some upperBound => (upperBound - 2, upperBound - 1)
  | none, none => (base, base + 1)

def computeReorderPatches (model : List EffectiveInferenceRow) (index : ℤ)
    (direction : ReorderDirection) : Option (PriorityPatch × PriorityPatch) :=
  let otherIndex := match direction with
    | .up => index - 1
    | .down => index + 1
  match rowAt model index, rowAt model otherIndex with
  | some moved, some neighbor =>
    if moved.provenance ≠ .setHere ∨ neighbor.provenance ≠ .setHere then none
    else
      let lowIndex := min index otherIndex
      let highIndex := max index otherIndex
      let lowerBound := (rowAt model (lowIndex - 1)).map (·.priority)
      let upperBound := (rowAt model (highIndex + 1)).map (·.priority)
      let priorities := reorderPriorities lowerBound upperBound
        (min moved.priority neighbor.priority)
      match direction with
      | .up => some (⟨moved.offeringId, priorities.1⟩, ⟨neighbor.offeringId, priorities.2⟩)
      | .down => some (⟨neighbor.offeringId, priorities.1⟩, ⟨moved.offeringId, priorities.2⟩)
  | _, _ => none

/-- The offerings of one model as the resolver orders them, all of them set here. -/
structure ModelRoute where
  rows : List EffectiveInferenceRow
  setHere : ∀ row ∈ rows, row.provenance = .setHere
  distinct : (rows.map (·.offeringId)).Nodup
  ordered : rows.Pairwise ResolvesBefore

/-- The upper one of the two places that are exchanged. -/
def lowIndex (index : ℤ) : ReorderDirection → ℤ
  | .up => index - 1
  | .down => index

/-- The list with the elements at a place and behind it exchanged. -/
def exchange {α : Type} : ℕ → List α → List α
  | 0, a :: b :: rest => b :: a :: rest
  | n + 1, a :: rest => a :: exchange n rest
  | _, rest => rest

/-- The rows beside the pair leave room between them: two integers, or one step and ids that put
the pair between them. -/
def LeavesRoom (model : List EffectiveInferenceRow) (low : ℤ) : Prop :=
  ∀ previous ∈ rowAt model (low - 1), ∀ earlier ∈ rowAt model (low + 1),
    ∀ later ∈ rowAt model low, ∀ next ∈ rowAt model (low + 2),
      previous.priority + 3 ≤ next.priority ∨
        previous.priority < next.priority ∧ textLt previous.offeringId earlier.offeringId ∧
          textLt later.offeringId next.offeringId

/-! ### The patches -/

section

variable {before after model : List EffectiveInferenceRow} {low high : EffectiveInferenceRow}

lemma rowAt_eq_some {index : ℤ} {row : EffectiveInferenceRow} (h : rowAt model index = some row) :
    0 ≤ index ∧ model[index.toNat]? = some row := by
  unfold rowAt at h
  split_ifs at h with hneg
  exact ⟨by omega, h⟩

lemma rowAt_length_sub_one :
    rowAt (before ++ low :: high :: after) ((before.length : ℤ) - 1) = before.getLast? := by
  unfold rowAt
  rcases eq_nil_or_concat' before with rfl | ⟨rows, last, rfl⟩
  · rfl
  · have hpos : ¬ (((rows ++ [last]).length : ℤ) - 1 < 0) := by simp
    have hlast : (((rows ++ [last]).length : ℤ) - 1).toNat = rows.length := by simp
    rw [if_neg hpos, hlast]
    simp

lemma rowAt_length : rowAt (before ++ low :: high :: after) before.length = some low := by
  unfold rowAt
  rw [if_neg (by omega), Int.toNat_natCast]
  simp

lemma rowAt_length_add_one :
    rowAt (before ++ low :: high :: after) ((before.length : ℤ) + 1) = some high := by
  have hplace : ((before.length : ℤ) + 1).toNat = before.length + 1 := by omega
  unfold rowAt
  rw [if_neg (by omega), hplace]
  simp

lemma rowAt_length_add_two :
    rowAt (before ++ low :: high :: after) ((before.length : ℤ) + 2) = after.head? := by
  have hplace : ((before.length : ℤ) + 2).toNat = before.length + 2 := by omega
  unfold rowAt
  rw [if_neg (by omega), hplace, getElem?_append_right (by omega)]
  cases after <;> simp

/-- Two neighbours cut the list. -/
lemma exists_cut {index : ℤ} (hlow : rowAt model index = some low)
    (hhigh : rowAt model (index + 1) = some high) :
    ∃ before after, model = before ++ low :: high :: after ∧ index = before.length := by
  obtain ⟨hpos, hget⟩ := rowAt_eq_some hlow
  obtain ⟨-, hget'⟩ := rowAt_eq_some hhigh
  have hplace : (index + 1).toNat = index.toNat + 1 := by omega
  rw [hplace] at hget'
  obtain ⟨hlt, rfl⟩ := List.getElem?_eq_some_iff.mp hget
  obtain ⟨hlt', rfl⟩ := List.getElem?_eq_some_iff.mp hget'
  refine ⟨model.take index.toNat, model.drop (index.toNat + 2), ?_, ?_⟩
  · have hdrop : model.drop index.toNat =
        model[index.toNat] :: model[index.toNat + 1] :: model.drop (index.toNat + 2) := by
      rw [drop_eq_getElem_cons hlt, drop_eq_getElem_cons hlt']
    rw [← hdrop, take_append_drop]
  · rw [length_take]
    omega

/-- What the patches are: the higher row becomes the earlier one. -/
lemma computeReorderPatches_eq_some {index : ℤ} {direction : ReorderDirection}
    {patches : PriorityPatch × PriorityPatch}
    (h : computeReorderPatches model index direction = some patches) :
    ∃ before low high after, model = before ++ low :: high :: after ∧
      lowIndex index direction = before.length ∧
      ∃ priorities, priorities = reorderPriorities (before.getLast?.map (·.priority))
          (after.head?.map (·.priority)) (min low.priority high.priority) ∧
        patches = (⟨high.offeringId, priorities.1⟩, ⟨low.offeringId, priorities.2⟩) := by
  unfold computeReorderPatches at h
  cases direction with
  | up =>
    simp only at h
    split at h
    · next moved neighbor hmoved hneighbor =>
      split_ifs at h
      have hmoved' : rowAt model (index - 1 + 1) = some moved := by rw [sub_add_cancel, hmoved]
      obtain ⟨before, after, rfl, hindex⟩ := exists_cut hneighbor hmoved'
      have hmin : min index (index - 1) = before.length := by omega
      have hmax : max index (index - 1) + 1 = before.length + 2 := by omega
      rw [hmin, hmax, rowAt_length_sub_one, rowAt_length_add_two, min_comm] at h
      exact ⟨before, neighbor, moved, after, rfl, hindex, _, rfl, (Option.some.inj h).symm⟩
    · cases h
  | down =>
    simp only at h
    split at h
    · next moved neighbor hmoved hneighbor =>
      split_ifs at h
      obtain ⟨before, after, rfl, hindex⟩ := exists_cut hmoved hneighbor
      have hmin : min index (index + 1) = before.length := by omega
      have hmax : max index (index + 1) + 1 = before.length + 2 := by omega
      rw [hmin, hmax, rowAt_length_sub_one, rowAt_length_add_two] at h
      exact ⟨before, moved, neighbor, after, rfl, hindex, _, rfl, (Option.some.inj h).symm⟩
    · cases h

/-! ### The order after the patches -/

lemma exchange_cut {α : Type} (before : List α) (low high : α) (after : List α) :
    exchange before.length (before ++ low :: high :: after) = before ++ high :: low :: after := by
  induction before with
  | nil => rfl
  | cons a before ih => rw [cons_append, length_cons, exchange, ih, cons_append]

/-- Only the pair gets other priorities. -/
lemma map_applyPatches_cut {e l : ℤ}
    (h : ((before ++ low :: high :: after).map (·.offeringId)).Nodup) :
    (before ++ low :: high :: after).map
        (applyPatches [⟨high.offeringId, e⟩, ⟨low.offeringId, l⟩]) =
      before ++ [low.withPriority l, high.withPriority e] ++ after := by
  rw [map_append, map_cons, map_cons, nodup_append] at h
  obtain ⟨-, hrest, hcross⟩ := h
  obtain ⟨hlow, hhigh⟩ := nodup_cons.mp hrest
  have hne : high.offeringId ≠ low.offeringId := fun heq => hlow (heq ▸ mem_cons_self)
  have hsame : ∀ row : EffectiveInferenceRow, row.offeringId ≠ high.offeringId →
      row.offeringId ≠ low.offeringId →
        applyPatches [⟨high.offeringId, e⟩, ⟨low.offeringId, l⟩] row = row := by
    intro row hrow hrow'
    simp [applyPatches, hrow.symm, hrow'.symm]
  have hbefore : before.map (applyPatches [⟨high.offeringId, e⟩, ⟨low.offeringId, l⟩]) =
      before.map id := by
    refine map_congr_left fun row hrow => hsame row ?_ ?_
    · exact hcross _ (mem_map_of_mem hrow) _ (by simp)
    · exact hcross _ (mem_map_of_mem hrow) _ (by simp)
  have hafter : after.map (applyPatches [⟨high.offeringId, e⟩, ⟨low.offeringId, l⟩]) =
      after.map id := by
    refine map_congr_left fun row hrow => hsame row ?_ ?_
    · exact fun heq => (nodup_cons.mp hhigh).1 (heq ▸ mem_map_of_mem hrow)
    · exact fun heq => hlow (mem_cons_of_mem _ (heq ▸ mem_map_of_mem hrow))
  have hlow' : applyPatches [⟨high.offeringId, e⟩, ⟨low.offeringId, l⟩] low =
      low.withPriority l := by
    simp [applyPatches, hne, EffectiveInferenceRow.withPriority]
  have hhigh' : applyPatches [⟨high.offeringId, e⟩, ⟨low.offeringId, l⟩] high =
      high.withPriority e := by
    simp [applyPatches, EffectiveInferenceRow.withPriority]
  rw [map_append, map_cons, map_cons, hbefore, hafter, hlow', hhigh', map_id, map_id, append_assoc]
  rfl

lemma textLt_iff {a b : String} (h : a ≠ b) : textLt a b ↔ unitsLe (utf16Of a) (utf16Of b) := by
  unfold textLt
  rw [Bool.not_eq_true']
  constructor
  · intro hnot
    exact (unitsLe_total _ _).resolve_right (by rw [hnot]; exact Bool.false_ne_true)
  · intro hle
    rw [Bool.eq_false_iff]
    exact fun hle' => h (utf16Of_injective (unitsLe_antisymm hle hle'))

/-- The new priorities put the pair between the rows beside it, or the ids do. -/
lemma fits_iff {previous next : Option EffectiveInferenceRow} {priorities : ℤ × ℤ}
    (h : priorities = reorderPriorities (previous.map (·.priority)) (next.map (·.priority))
      (min low.priority high.priority))
    (hprevious : ∀ row ∈ previous, row.offeringId ≠ high.offeringId)
    (hnext : ∀ row ∈ next, low.offeringId ≠ row.offeringId) :
    ((∀ row ∈ previous, ResolvesBefore row (high.withPriority priorities.1)) ∧
      ∀ row ∈ next, ResolvesBefore (low.withPriority priorities.2) row) ↔
    ∀ row ∈ previous, ∀ other ∈ next, row.priority + 3 ≤ other.priority ∨
      row.priority < other.priority ∧ textLt row.offeringId high.offeringId ∧
        textLt low.offeringId other.offeringId := by
  cases previous with
  | none =>
    cases next with
    | none => simp
    | some other =>
      have hbefore : ResolvesBefore (low.withPriority priorities.2) other := by
        refine resolvesBefore_iff.2 (.inl ?_)
        rw [h]
        change other.priority - 1 < other.priority
        omega
      simp [hbefore]
  | some row =>
    cases next with
    | none =>
      have hbefore : ResolvesBefore row (high.withPriority priorities.1) := by
        refine resolvesBefore_iff.2 (.inl ?_)
        rw [h]
        change row.priority < row.priority + 1
        omega
      simp [hbefore]
    | some other =>
      have hids := textLt_iff (hprevious row rfl)
      have hids' := textLt_iff (hnext other rfl)
      simp only [Option.mem_def, Option.some.injEq, forall_eq', resolvesBefore_iff,
        priority_withPriority, offeringId_withPriority, hids, hids', h, reorderPriorities,
        Option.map_some]
      split_ifs with hthree hone
      · have hlow : row.priority < row.priority + 1 := by omega
        have hhigh : other.priority - 1 < other.priority := by omega
        have hroom : row.priority + 3 ≤ other.priority := by omega
        simp [hlow, hhigh, hroom]
      · have hlt : row.priority < other.priority := by omega
        have hroom : ¬ row.priority + 3 ≤ other.priority := by omega
        simp [hlt, hroom]
      · have hlow : ¬ row.priority + 1 < other.priority := by omega
        have hhigh : ¬ row.priority + 1 = other.priority := by omega
        have hroom : ¬ row.priority + 3 ≤ other.priority := by omega
        have hlt : ¬ row.priority < other.priority := by omega
        simp [hlow, hhigh, hroom, hlt]

lemma reorderPriorities_lt (lowerBound upperBound : Option ℤ) (base : ℤ) :
    (reorderPriorities lowerBound upperBound base).1 <
      (reorderPriorities lowerBound upperBound base).2 := by
  cases lowerBound with
  | none =>
    cases upperBound <;> simp only [reorderPriorities] <;> omega
  | some lowerBound =>
    cases upperBound with
    | none => simp [reorderPriorities]
    | some upperBound =>
      simp only [reorderPriorities]
      split_ifs <;> simp only <;> omega

/-- The pair, with its new priorities, is in the order of the resolver. -/
lemma pairwise_patched {priorities : ℤ × ℤ} (h : priorities.1 < priorities.2) :
    [high.withPriority priorities.1, low.withPriority priorities.2].Pairwise
      (Before ResolvesBefore) := by
  refine pairwise_pair.mpr ⟨resolvesBefore_iff.2 (.inl h), fun hback => ?_⟩
  rcases resolvesBefore_iff.1 hback with hback | ⟨hback, -⟩ <;>
    simp only [priority_withPriority] at hback <;> omega

/-- Rows with ids of their own are in the order of some others if their ids are. -/
lemma resolutionOrder_eq_iff {rows others : List EffectiveInferenceRow} (hperm : rows ~ others)
    (hn : (rows.map (·.offeringId)).Nodup) :
    (resolutionOrder rows).map (·.offeringId) = others.map (·.offeringId) ↔
      resolutionOrder rows = others := by
  have hsorted : resolutionOrder rows ~ rows := perm_insertionSort ResolvesBefore rows
  refine ⟨eq_of_perm_of_map_eq (hsorted.trans hperm) ?_, fun heq => by rw [heq]⟩
  exact (hsorted.map _).nodup_iff.mpr hn

end

/-- **The patches exchange the pair**, and nothing else in the order in which the offerings are
tried, if and only if the rows beside it leave room. -/
theorem reorder_iff (route : ModelRoute) {index : ℤ} {direction : ReorderDirection}
    {patches : PriorityPatch × PriorityPatch}
    (h : computeReorderPatches route.rows index direction = some patches) :
    (resolutionOrder (route.rows.map (applyPatches [patches.1, patches.2]))).map (·.offeringId) =
        exchange (lowIndex index direction).toNat (route.rows.map (·.offeringId)) ↔
      LeavesRoom route.rows (lowIndex index direction) := by
  obtain ⟨before, low, high, after, hrows, hindex, priorities, hpriorities, rfl⟩ :=
    computeReorderPatches_eq_some h
  have hn := route.distinct
  have hs := route.ordered
  rw [hrows] at hn hs ⊢
  have hlt : priorities.1 < priorities.2 := hpriorities ▸ reorderPriorities_lt _ _ _
  have hmid : [high.withPriority priorities.1, low.withPriority priorities.2].Pairwise
      (Before ResolvesBefore) := pairwise_patched hlt
  have hids : exchange (lowIndex index direction).toNat
      ((before ++ low :: high :: after).map (·.offeringId)) =
        (before ++ [high.withPriority priorities.1, low.withPriority priorities.2] ++
          after).map (·.offeringId) := by
    have hplace : (lowIndex index direction).toNat = (before.map (·.offeringId)).length := by
      rw [hindex, Int.toNat_natCast, length_map]
    rw [hplace, map_append, map_cons, map_cons, exchange_cut]
    simp
  have hperm : [low.withPriority priorities.2, high.withPriority priorities.1] ~
      [high.withPriority priorities.1, low.withPriority priorities.2] := Perm.swap _ _ _
  have hn' : ((before ++ [low.withPriority priorities.2, high.withPriority priorities.1] ++
      after).map (·.offeringId)).Nodup := by
    simpa using hn
  have horder := resolutionOrder_eq_iff ((hperm.append_left before).append_right after) hn'
  obtain ⟨hbefore, hrest, -⟩ := pairwise_append.mp hs
  have hafter := (pairwise_cons.mp (pairwise_cons.mp hrest).2).2
  rw [map_applyPatches_cut hn, hids, horder, resolutionOrder, insertionSort_stretch hperm hmid,
    pairwise_stretch hbefore (hmid.imp And.left) hafter (cons_ne_nil _ _)]
  rw [map_append, map_cons, map_cons, nodup_append] at hn
  have hprevious : ∀ row ∈ before.getLast?, row.offeringId ≠ high.offeringId := fun row hrow =>
    hn.2.2 _ (mem_map_of_mem (mem_of_getLast? hrow)) _ (by simp)
  have hnext : ∀ row ∈ after.head?, low.offeringId ≠ row.offeringId := by
    intro row hrow heq
    refine (nodup_cons.mp hn.2.1).1 (mem_cons_of_mem _ ?_)
    exact heq ▸ mem_map_of_mem (mem_of_head? hrow)
  have hfits := fits_iff hpriorities hprevious hnext
  simp only [LeavesRoom, hindex, rowAt_length_sub_one, rowAt_length_add_one, rowAt_length,
    rowAt_length_add_two]
  simpa using hfits

/-- Four offerings of a model, all at the priority that offerings start with. -/
def seededModel : ModelRoute where
  rows := ["a", "b", "c", "d"].map fun offeringId => ⟨offeringId, "model", "provider", 0, .setHere⟩
  setHere := by simp
  distinct := by decide
  ordered := by decide

/-- The first two can be exchanged: there is nothing before them. -/
theorem reorder_first_two :
    (resolutionOrder (seededModel.rows.map (applyPatches [⟨"b", -2⟩, ⟨"a", -1⟩]))).map
        (·.offeringId) = exchange 0 (seededModel.rows.map (·.offeringId)) ↔
      LeavesRoom seededModel.rows 0 :=
  @reorder_iff seededModel 0 .down (⟨"b", -2⟩, ⟨"a", -1⟩) (by decide)

/-- Exchanging the two in the middle takes the second one past the fourth. -/
theorem reorder_passes_fourth :
    computeReorderPatches seededModel.rows 1 .down = some (⟨"c", 0⟩, ⟨"b", 1⟩) ∧
      (resolutionOrder (seededModel.rows.map (applyPatches [⟨"c", 0⟩, ⟨"b", 1⟩]))).map
        (·.offeringId) = ["a", "c", "d", "b"] ∧
      exchange (lowIndex 1 .down).toNat (seededModel.rows.map (·.offeringId)) =
        ["a", "c", "b", "d"] := by
  decide

end Workbench.Settings
