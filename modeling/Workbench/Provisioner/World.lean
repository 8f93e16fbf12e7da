import Mathlib.Logic.Function.Basic
import Workbench.Provisioner.Requests

/-!
What the provisioner acts on: the processes of the host, the unit directories with their pid
files, the records in memory and the records in the state file.

Every effect of the provisioner is one of the changes below. The writes of the state file are
taken at the level of records; `StateFile` has the text.
-/

namespace Workbench.Provisioner

open Workbench.Lib

/-- A live process: a sidecar by the unit it was spawned for, or any other process. -/
inductive Process
  | sidecar (unit : UnitId)
  | foreign
  deriving DecidableEq, Repr

/-- An entry of an allocation's directory, by allocation id and entry name. -/
abbrev UnitDir := String × String

def unitDirKey (unit : UnitId) : UnitDir := (unit.allocationId, unitDirName unit.generation)

structure World where
  /-- the live processes by pid -/
  processes : ℕ → Option Process
  /-- the unit directories, each with the text of its pid file -/
  units : OrderedMap UnitDir (Option String)
  records : Records
  /-- what the state file holds -/
  file : Records

inductive Signal
  | sigterm
  | sigkill
  deriving DecidableEq, Repr

inductive Change
  /-- the state file replaced; the records in memory follow when the write is acknowledged -/
  | persist (record : AllocationRecord) (acknowledged : Bool)
  | makeUnitDir (unit : UnitId)
  | spawn (unit : UnitId) (args : SpawnSidecarProcessArgs) (pid : ℕ)
  | writePidFile (unit : UnitId) (pid : ℕ)
  /-- a signal to a pid, in the course of stopping a unit -/
  | signal (unit : UnitId) (pid : ℕ) (signal : Signal)
  | removeUnitDir (unit : UnitId)
  | removeAllocationDir (allocationId : String)
  deriving DecidableEq, Repr

variable (allocationsDir : Path)

/-- The path of an entry of an allocation's directory. -/
def entryPath (dir : UnitDir) : Path := allocationDirOf allocationsDir dir.1 ++ [dir.2]

/-- Whether removing the directory of a unit, with all that is in it, takes an entry away. -/
def takesAway (unit : UnitId) (dir : UnitDir) : Bool :=
  Path.isUnder (entryPath allocationsDir dir) (unitDirOf allocationsDir unit)

/-- `SIGKILL` ends a process at once. `SIGTERM` only asks: the process exits on its own, later
or never. The parent of a removed unit directory goes only when it is empty, so no unit
directory goes with it. -/
def World.apply (w : World) : Change → World
  | .persist record acknowledged =>
    { w with
      file := w.records.put record
      records := if acknowledged then w.records.put record else w.records }
  | .makeUnitDir unit =>
    if w.units.has (unitDirKey unit) then w
    else { w with units := w.units.set (unitDirKey unit) none }
  | .spawn unit _ pid =>
    { w with processes := Function.update w.processes pid (some (.sidecar unit)) }
  | .writePidFile unit pid =>
    { w with units := w.units.set (unitDirKey unit) (some (pidFileText pid)) }
  | .signal _ pid .sigkill => { w with processes := Function.update w.processes pid none }
  | .signal _ _ .sigterm => w
  | .removeUnitDir unit =>
    { w with units := w.units.keep fun dir => !takesAway allocationsDir unit dir }
  | .removeAllocationDir _ => w

def World.applyAll (w : World) (changes : List Change) : World :=
  changes.foldl (World.apply allocationsDir) w

@[simp] lemma applyAll_nil (w : World) : w.applyAll allocationsDir [] = w := rfl

@[simp] lemma applyAll_cons (w : World) (c : Change) (cs : List Change) :
    w.applyAll allocationsDir (c :: cs) = (w.apply allocationsDir c).applyAll allocationsDir cs :=
  rfl

namespace World

def isAlive (w : World) (pid : ℕ) : Bool := (w.processes pid).isSome

/-- The names `readdir` lists for an allocation. -/
def entriesOf (w : World) (allocationId : String) : List String :=
  (w.units.keys.filter fun dir => dir.1 = allocationId).map Prod.snd

/-- `readPidFile`: the pid the file of an entry names; none when there is no such file. -/
def readPidFile (w : World) (dir : UnitDir) : Option ℕ := (w.units.get dir).join.bind pidOfText

lemma mem_entriesOf {w : World} {allocationId name : String} :
    name ∈ w.entriesOf allocationId ↔ ∃ text, w.units.get (allocationId, name) = some text := by
  rw [← OrderedMap.mem_keys]
  simp [entriesOf]

variable {allocationsDir} {w : World}

lemma pos_of_readPidFile {w : World} {dir : UnitDir} {pid : ℕ}
    (h : w.readPidFile dir = some pid) : 0 < pid := by
  obtain ⟨raw, -, h⟩ := Option.bind_eq_some_iff.mp h
  exact pos_of_pidOfText h

lemma unitDirKey_injective {unit unit' : UnitId} (h : unitDirKey unit = unitDirKey unit') :
    unit = unit' := by
  obtain ⟨a, g⟩ := unit
  obtain ⟨a', g'⟩ := unit'
  simp only [unitDirKey, Prod.mk.injEq] at h
  rw [h.1, unitDirName_injective h.2]

/-! ### What each change does to each part -/

@[simp] lemma processes_apply (c : Change) : (w.apply allocationsDir c).processes =
    match c with
    | .spawn unit _ pid => Function.update w.processes pid (some (.sidecar unit))
    | .signal _ pid .sigkill => Function.update w.processes pid none
    | _ => w.processes := by
  cases c with
  | signal unit pid signal => cases signal <;> rfl
  | makeUnitDir unit => simp only [apply]; split <;> rfl
  | _ => rfl

@[simp] lemma records_apply (c : Change) : (w.apply allocationsDir c).records =
    match c with
    | .persist record acknowledged => if acknowledged then w.records.put record else w.records
    | _ => w.records := by
  cases c with
  | signal unit pid signal => cases signal <;> rfl
  | makeUnitDir unit => simp only [apply]; split <;> rfl
  | _ => rfl

@[simp] lemma file_apply (c : Change) : (w.apply allocationsDir c).file =
    match c with
    | .persist record _ => w.records.put record
    | _ => w.file := by
  cases c with
  | signal unit pid signal => cases signal <;> rfl
  | makeUnitDir unit => simp only [apply]; split <;> rfl
  | _ => rfl

@[simp] lemma units_apply (c : Change) : (w.apply allocationsDir c).units =
    match c with
    | .makeUnitDir unit =>
      if w.units.has (unitDirKey unit) then w.units else w.units.set (unitDirKey unit) none
    | .writePidFile unit pid => w.units.set (unitDirKey unit) (some (pidFileText pid))
    | .removeUnitDir unit => w.units.keep fun dir => !takesAway allocationsDir unit dir
    | _ => w.units := by
  cases c with
  | signal unit pid signal => cases signal <;> rfl
  | makeUnitDir unit => simp only [apply]; split <;> rfl
  | _ => rfl

/-- Within one allocation a removal takes away the directory it names and no other. -/
lemma takesAway_same {unit : UnitId} {name : String} :
    takesAway allocationsDir unit (unit.allocationId, name) ↔
      name = unitDirName unit.generation := by
  rw [takesAway, unitDirOf_eq, entryPath, Path.isUnder_sibling, eq_comm]

variable {d : Path}

lemma units_removeUnitDir {unit : UnitId} {dir : UnitDir} :
    (w.apply d (.removeUnitDir unit)).units.get dir =
      if takesAway d unit dir then none else w.units.get dir := by
  simp only [apply, OrderedMap.get_keep]
  by_cases h : takesAway d unit dir <;> simp [h]

lemma units_makeUnitDir {unit : UnitId} {dir : UnitDir} :
    (w.apply d (.makeUnitDir unit)).units.get dir =
      if dir = unitDirKey unit then some ((w.units.get dir).join) else w.units.get dir := by
  simp only [apply]
  split
  · rename_i h
    rw [OrderedMap.has_iff, OrderedMap.mem_keys] at h
    obtain ⟨text, ht⟩ := h
    by_cases hd : dir = unitDirKey unit
    · subst hd; simp [ht]
    · simp [hd]
  · rename_i h
    by_cases hd : dir = unitDirKey unit
    · subst hd
      rw [OrderedMap.has, Bool.not_eq_true, Option.isSome_eq_false_iff, Option.isNone_iff_eq_none]
        at h
      simp [h]
    · simp [OrderedMap.get_set, hd]

lemma units_writePidFile {unit : UnitId} {pid : ℕ} {dir : UnitDir} :
    (w.apply d (.writePidFile unit pid)).units.get dir =
      if dir = unitDirKey unit then some (some (pidFileText pid)) else w.units.get dir :=
  OrderedMap.get_set

end World

end Workbench.Provisioner
