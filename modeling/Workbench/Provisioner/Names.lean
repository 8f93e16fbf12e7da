import Workbench.Lib.NumberText
import Workbench.Lib.Path

/-!
The names the process provisioner gives to units, and how it reads them back.

A unit is one generation of an allocation. It has a directory `gen-<generation>` under the
directory of its allocation, and an external reference `<allocationId>:<generation>:<pid>`.
-/

namespace Workbench.Provisioner

open Workbench.Lib Workbench.Lib.NumberText

def pidFileName : String := "sidecar.pid"
def sidecarDataDirName : String := "data"
def unitDirPrefix : String := "gen-"

/-- One generation of an allocation. -/
structure UnitId where
  allocationId : String
  generation : ℕ
  deriving DecidableEq, Repr

/-- What an external reference names. -/
structure UnitRef where
  unit : UnitId
  pid : ℕ
  deriving DecidableEq, Repr

def isAllocationIdChar (c : Char) : Bool :=
  c.isAlphanum || c = '.' || c = '_' || c = '-'

/-- `ALLOCATION_ID_PATTERN`: one or more letters, digits, dots, underscores and hyphens. -/
def matchesAllocationIdPattern (allocationId : String) : Bool :=
  allocationId ≠ "" && allocationId.toList.all isAllocationIdChar

def externalRefOf (allocationId : String) (generation : ℕ) (pid : ℕ) : String :=
  allocationId ++ ":" ++ toString generation ++ ":" ++ toString pid

def parseExternalRef (externalRef : String) : Option UnitRef :=
  match externalRef.toList.splitOn ':' with
  | [allocationId, generationText, pidText] =>
    if allocationId = [] then none
    else
      match integerOf generationText, integerOf pidText with
      | some generation, some pid =>
        if generation < 0 ∨ pid ≤ 0 then none
        else some ⟨⟨String.ofList allocationId, generation.toNat⟩, pid.toNat⟩
      | _, _ => none
  | _ => none

/-- The name of a unit's directory. -/
def unitDirName (generation : ℕ) : String := unitDirPrefix ++ toString generation

def generationOf (entryName : String) : Option ℕ :=
  if unitDirPrefix.toList.isPrefixOf entryName.toList then
    match integerOf (entryName.toList.drop unitDirPrefix.length) with
    | some generation => if 0 < generation then some generation.toNat else none
    | none => none
  else none

/-- The text `startUnit` writes into the pid file. -/
def pidFileText (pid : ℕ) : String := toString pid ++ "\n"

/-- The pid a pid file names, if it names one. -/
def pidOfText (raw : String) : Option ℕ :=
  match integerOf raw.toList with
  | some pid => if 0 < pid then some pid.toNat else none
  | none => none

/-! ### What is written is read back -/

lemma colon_not_mem {allocationId : String} (h : matchesAllocationIdPattern allocationId) :
    ':' ∉ allocationId.toList := by
  intro hm
  simp only [matchesAllocationIdPattern, Bool.and_eq_true, List.all_eq_true] at h
  exact absurd (h.2 _ hm) (by decide)

lemma ne_empty {allocationId : String} (h : matchesAllocationIdPattern allocationId) :
    allocationId ≠ "" := by
  rintro rfl
  simp [matchesAllocationIdPattern] at h

lemma toList_externalRefOf (allocationId : String) (generation : ℕ) (pid : ℕ) :
    (externalRefOf allocationId generation pid).toList =
      allocationId.toList ++ ':' :: (digits generation ++ ':' :: digits pid) := by
  simp only [externalRefOf, String.toList_append, toList_toString, List.append_assoc]
  rfl

/-- **A reference the provisioner writes names the unit and process it was made from.** -/
theorem parseExternalRef_externalRefOf {allocationId : String} {generation : ℕ} {pid : ℕ}
    (h : matchesAllocationIdPattern allocationId) (hp : 0 < pid) :
    parseExternalRef (externalRefOf allocationId generation pid) =
      some ⟨⟨allocationId, generation⟩, pid⟩ := by
  have hd : ∀ n : ℕ, ':' ∉ digits n := fun n => not_mem_digits (by decide)
  have hsplit : (externalRefOf allocationId generation pid).toList.splitOn ':' =
      [allocationId.toList, digits generation, digits pid] := by
    rw [toList_externalRefOf, List.splitOn_append_cons_self_of_not_mem (colon_not_mem h),
      List.splitOn_append_cons_self_of_not_mem (hd _), List.splitOn_eq_singleton (hd _)]
  have hne : allocationId.toList ≠ [] := by simpa using ne_empty h
  have hp' : ¬ ((generation : ℤ) < 0 ∨ (pid : ℤ) ≤ 0) := by omega
  simp only [parseExternalRef, hsplit, if_neg hne, integerOf_digits, if_neg hp',
    String.ofList_toList, Int.toNat_natCast]

lemma length_splitOn (c : Char) (text : List Char) :
    (text.splitOn c).length = text.count c + 1 := by
  induction text with
  | nil => simp
  | cons d text ih =>
    rw [List.splitOn_cons_eq_if_modifyHead, List.count_cons]
    split <;> simp_all

/-- Whatever the allocation id: a reference with a colon too many names nothing. -/
theorem eq_of_parseExternalRef {allocationId : String} {generation pid : ℕ} {target : UnitRef}
    (h : parseExternalRef (externalRefOf allocationId generation pid) = some target) :
    target = ⟨⟨allocationId, generation⟩, pid⟩ := by
  have hd : ∀ n : ℕ, ':' ∉ digits n := fun n => not_mem_digits (by decide)
  by_cases hc : ':' ∈ allocationId.toList
  · -- there are more than three parts
    have hlen := length_splitOn ':' (externalRefOf allocationId generation pid).toList
    have hcount := List.count_pos_iff.mpr hc
    simp only [toList_externalRefOf, List.count_append, List.count_cons_self] at hlen
    unfold parseExternalRef at h
    split at h
    · rename_i heq
      rw [toList_externalRefOf] at heq
      rw [heq] at hlen
      simp only [List.length_cons, List.length_nil] at hlen
      omega
    · simp at h
  · have hsplit : (externalRefOf allocationId generation pid).toList.splitOn ':' =
        [allocationId.toList, digits generation, digits pid] := by
      rw [toList_externalRefOf, List.splitOn_append_cons_self_of_not_mem hc,
        List.splitOn_append_cons_self_of_not_mem (hd _), List.splitOn_eq_singleton (hd _)]
    simp only [parseExternalRef, hsplit, integerOf_digits, Option.ite_none_left_eq_some,
      Option.some.injEq, String.ofList_toList, Int.toNat_natCast] at h
    exact h.2.2.symm

lemma externalRefOf_inj {a : String} {g g' : ℕ} {p p' : ℕ} (h : matchesAllocationIdPattern a)
    (hp : 0 < p) (hp' : 0 < p') (he : externalRefOf a g p = externalRefOf a g' p') :
    g = g' ∧ p = p' := by
  have : parseExternalRef (externalRefOf a g p) = some ⟨⟨a, g⟩, p⟩ :=
    parseExternalRef_externalRefOf h hp
  rw [he, parseExternalRef_externalRefOf h hp'] at this
  simp only [Option.some.injEq, UnitRef.mk.injEq, UnitId.mk.injEq, true_and] at this
  exact ⟨this.1.symm, this.2.symm⟩

lemma toList_unitDirName (generation : ℕ) :
    (unitDirName generation).toList = unitDirPrefix.toList ++ digits generation := by
  rw [unitDirName, String.toList_append, toList_toString]

/-- The directory of a unit names its generation, unless that is `0`. -/
theorem generationOf_unitDirName (generation : ℕ) :
    generationOf (unitDirName generation) = if 0 < generation then some generation else none := by
  have hp : unitDirPrefix.toList.isPrefixOf (unitDirName generation).toList := by
    rw [toList_unitDirName, List.isPrefixOf_iff_prefix]
    exact List.prefix_append _ _
  have hd : (unitDirName generation).toList.drop unitDirPrefix.length = digits generation := by
    rw [toList_unitDirName]
    exact List.drop_left
  simp only [generationOf, if_pos hp, hd, integerOf_digits, Int.toNat_natCast]
  simp

lemma unitDirName_injective {g g' : ℕ} (h : unitDirName g = unitDirName g') : g = g' := by
  have := congrArg String.toList h
  rw [toList_unitDirName, toList_unitDirName, List.append_cancel_left_eq] at this
  exact toString_injective (String.toList_injective (by rwa [toList_toString, toList_toString]))

lemma slash_not_mem_unitDirName (generation : ℕ) : '/' ∉ (unitDirName generation).toList := by
  have hd : '/' ∉ digits generation := not_mem_digits (by decide)
  have hu : '/' ∉ unitDirPrefix.toList := by decide
  simp [toList_unitDirName, hd, hu]

lemma unitDirName_ne (generation : ℕ) {text : String} (h : text.toList.head? ≠ some 'g') :
    unitDirName generation ≠ text := by
  rintro rfl
  rw [toList_unitDirName] at h
  exact h rfl

/-- **The pid file names the process it was written for.** -/
theorem pidOfText_pidFileText {pid : ℕ} (h : 0 < pid) :
    pidOfText (pidFileText pid) = some pid := by
  have ht : (pidFileText pid).toList = digits pid ++ ['\n'] := by
    rw [pidFileText, String.toList_append, toList_toString]
    rfl
  have hi : integerOf (pidFileText pid).toList = some (pid : ℤ) := by
    rw [ht]
    exact integerOf_digits_append (by simp [isTrimmed]) pid
  simp [pidOfText, hi, h]

lemma pos_of_pidOfText {raw : String} {pid : ℕ} (h : pidOfText raw = some pid) : 0 < pid := by
  unfold pidOfText at h
  split at h
  · split_ifs at h
    obtain rfl := Option.some.inj h
    omega
  · simp at h

lemma eq_of_pidOfText {pid pid' : ℕ} (h : pidOfText (pidFileText pid) = some pid') :
    pid' = pid := by
  rcases Nat.eq_zero_or_pos pid with rfl | hp
  · have : pidOfText (pidFileText 0) = none := by decide
    simp [this] at h
  · rw [pidOfText_pidFileText hp] at h
    exact (Option.some.inj h).symm

lemma eq_of_generationOf {generation generation' : ℕ}
    (h : generationOf (unitDirName generation) = some generation') : generation' = generation := by
  rw [generationOf_unitDirName] at h
  split at h
  · exact (Option.some.inj h).symm
  · simp at h

/-! ### Where they stand -/

/-- The directory of an allocation, with every allocation under `allocationsDir`. -/
def allocationDirOf (allocationsDir : Path) (allocationId : String) : Path :=
  Path.resolve allocationsDir allocationId

def unitDirOf (allocationsDir : Path) (unit : UnitId) : Path :=
  Path.resolve (allocationDirOf allocationsDir unit.allocationId) (unitDirName unit.generation)

lemma unitDirOf_eq (allocationsDir : Path) (unit : UnitId) :
    unitDirOf allocationsDir unit =
      allocationDirOf allocationsDir unit.allocationId ++ [unitDirName unit.generation] := by
  rw [unitDirOf, Path.resolve_name (slash_not_mem_unitDirName _), Path.descend_of_ne] <;>
    exact unitDirName_ne _ (by decide)

end Workbench.Provisioner
