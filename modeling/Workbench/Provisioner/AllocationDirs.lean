import Workbench.Provisioner.System

/-!
The directory of an allocation.

An allocation id is looked at character by character before it is resolved, and dots are allowed.
Two ids are made of dots alone and stand for another directory: the one all allocations are in, and
the one above it.
-/

namespace Workbench.Provisioner

open Workbench.Lib Workbench.Lib.Transition

/-- The directory a change removes, with the allocation it is removed for. -/
def Change.removed (allocationsDir : Path) : Change → Option (String × Path)
  | .removeUnitDir unit => some (unit.allocationId, unitDirOf allocationsDir unit)
  | .removeAllocationDir allocationId =>
    some (allocationId, allocationDirOf allocationsDir allocationId)
  | _ => none

/-- An allocation has a directory of its own, and whatever is removed for it is in there. -/
structure HasOwnDirectory (cfg : Config) (allocationId : String) : Prop where
  inside : ∃ name, allocationDirOf cfg.allocationsDir allocationId = cfg.allocationsDir ++ [name]
  apart : ∀ other, matchesAllocationIdPattern other → other ≠ allocationId →
    allocationDirOf cfg.allocationsDir other ≠ allocationDirOf cfg.allocationsDir allocationId
  confined : ∀ s e, ∀ change ∈ actionsOf cfg s e, ∀ dir,
    change.removed cfg.allocationsDir = some (allocationId, dir) →
      Path.isUnder dir (cfg.allocationsDir ++ [allocationId])

variable {cfg : Config} {allocationId : String} {dir : Path}

lemma slash_not_mem_of_matches (h : matchesAllocationIdPattern allocationId) :
    '/' ∉ allocationId.toList := by
  intro hmem
  simp only [matchesAllocationIdPattern, Bool.and_eq_true, List.all_eq_true] at h
  exact absurd (h.2 _ hmem) (by decide)

/-- An id the pattern lets through is gone down by one step. -/
lemma allocationDirOf_eq (h : matchesAllocationIdPattern allocationId) :
    allocationDirOf dir allocationId =
      if allocationId = "." then dir
      else if allocationId = ".." then dir.dropLast
      else dir ++ [allocationId] := by
  rw [allocationDirOf, Path.resolve_name (slash_not_mem_of_matches h), Path.descend]
  simp [ne_empty h]

lemma length_allocationDirOf (h : matchesAllocationIdPattern allocationId) :
    (allocationDirOf dir allocationId).length = dir.length + 1 ↔
      allocationId ≠ "." ∧ allocationId ≠ ".." := by
  rw [allocationDirOf_eq h]
  split_ifs with hdot hup
  · simp [hdot]
  · simp only [List.length_dropLast, hup, ne_eq, not_true_eq_false, and_false, iff_false]
    omega
  · simp [hdot, hup]

/-- What is removed for an allocation is its directory, or is in it. -/
lemma isUnder_of_removed {change : Change} {removed : Path}
    (h : change.removed dir = some (allocationId, removed)) :
    Path.isUnder removed (allocationDirOf dir allocationId) := by
  rw [Path.isUnder_iff]
  cases change with
  | removeUnitDir unit =>
    obtain ⟨rfl, rfl⟩ := Prod.mk.inj (Option.some.inj h)
    rw [unitDirOf_eq]
    exact List.prefix_append _ _
  | removeAllocationDir id =>
    obtain ⟨rfl, rfl⟩ := Prod.mk.inj (Option.some.inj h)
    exact List.prefix_rfl
  | _ => cases h

/-- **An allocation has a directory of its own** unless its id is one of the two that name
another place. -/
theorem hasOwnDirectory_iff (h : matchesAllocationIdPattern allocationId) :
    HasOwnDirectory cfg allocationId ↔ allocationId ≠ "." ∧ allocationId ≠ ".." := by
  constructor
  · intro hown
    obtain ⟨name, hname⟩ := hown.inside
    have hlength := congrArg List.length hname
    rw [List.length_append, List.length_singleton] at hlength
    exact (length_allocationDirOf h).mp hlength
  · intro hne
    have hdir : allocationDirOf cfg.allocationsDir allocationId =
        cfg.allocationsDir ++ [allocationId] := by
      rw [allocationDirOf_eq h, if_neg hne.1, if_neg hne.2]
    refine ⟨⟨allocationId, hdir⟩, fun other hother hdiffer heq => ?_, ?_⟩
    · have hlength := congrArg List.length heq
      rw [(length_allocationDirOf h).mpr hne, length_allocationDirOf hother] at hlength
      rw [allocationDirOf_eq hother, if_neg hlength.1, if_neg hlength.2, hdir] at heq
      exact hdiffer (by simpa using heq)
    · intro s e change _ removed hremoved
      rw [← hdir]
      exact isUnder_of_removed hremoved

theorem hasOwnDirectory_iff_dots :
    HasOwnDirectory sampleConfig "a..b" ↔ "a..b" ≠ "." ∧ "a..b" ≠ ".." :=
  hasOwnDirectory_iff (by decide)

/-- A destroy for the id `..`, with a reference that names a unit of it. -/
def destroyAbove : List Event :=
  [.call 0 (destroyOf ".." 1 (some "..:1:7")), .reply 0 (.stored "t0"), .reply 0 .done]

/-- **A directory beside the allocations is removed** for an id the pattern lets through. -/
theorem removes_above_allocations : matchesAllocationIdPattern ".." ∧
    (∃ s, run (step sampleConfig) idle destroyAbove = some s ∧
      ∃ change ∈ actionsOf sampleConfig s (.reply 0 .done),
        change.removed sampleConfig.allocationsDir = some ("..", ["data", "gen-1"])) ∧
    ¬ HasOwnDirectory sampleConfig ".." := by
  refine ⟨by decide, ⟨_, rfl, .removeUnitDir ⟨"..", 1⟩, List.mem_singleton.mpr rfl, rfl⟩, ?_⟩
  rintro ⟨⟨name, hname⟩, -, -⟩
  have hlength := congrArg List.length hname
  rw [List.length_append, List.length_singleton] at hlength
  exact absurd hlength (by decide)

end Workbench.Provisioner
