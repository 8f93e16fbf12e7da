import Workbench.Lib.Json
import Workbench.Provisioner.Requests

/-!
The state file: how the records are written, and what a file must be to be read.
-/

namespace Workbench.Provisioner

open Workbench.Lib

/-! ### Writing -/

/-- Numbers in the state file. All that are written are natural. -/
def stateNumerals : Numerals JsNumber where
  write
    | .integer value => if value < 0 then '-' :: NumberText.digits value.natAbs
        else NumberText.digits value.toNat
    | .other => ['n', 'u', 'l', 'l']
  read numeral :=
    match NumberText.signedOf numeral with
    | some value => .integer value
    | none => .other

abbrev StateJson := Json JsNumber

def DesiredState.text : DesiredState → String
  | .ensured => "ensured"
  | .destroyed => "destroyed"

def recordJson (r : AllocationRecord) : StateJson :=
  .object [("allocationId", .string r.allocationId), ("sidecarId", .string r.sidecarId),
    ("generation", .number (.integer r.generation)),
    ("desiredState", .string r.desiredState.text),
    ("externalRef", match r.externalRef with
      | some externalRef => .string externalRef
      | none => .null),
    ("updatedAt", .string r.updatedAt)]

def stateJson (records : Records) : StateJson :=
  .object [("version", .number (.integer 1)),
    ("records", .array (records.map.values.map recordJson))]

/-- What `persist` writes. -/
def contents (records : Records) : String :=
  String.ofList (Json.write stateNumerals 0 (stateJson records) ++ ['\n'])

example : contents .empty = "\x7b\n  \"version\": 1,\n  \"records\": []\n\x7d\n" := rfl

/-! ### Reading -/

def nonEmptyString : StateJson → Option String
  | .string value => if value = "" then none else some value
  | _ => none

def naturalNumber : StateJson → Option ℕ
  | .number (.integer value) => if 0 ≤ value then some value.toNat else none
  | _ => none

def desiredStateOf : StateJson → Option DesiredState
  | .string value =>
    if value = "ensured" then some .ensured
    else if value = "destroyed" then some .destroyed
    else none
  | _ => none

def stringOrNull : StateJson → Option (Option String)
  | .string value => some (some value)
  | .null => some none
  | _ => none

/-- The validator `AllocationRecord`. -/
def allocationRecordOf (value : StateJson) : Option AllocationRecord := do
  let allocationId ← (value.member "allocationId").bind nonEmptyString
  let sidecarId ← (value.member "sidecarId").bind nonEmptyString
  let generation ← (value.member "generation").bind naturalNumber
  let desiredState ← (value.member "desiredState").bind desiredStateOf
  let externalRef ← (value.member "externalRef").bind stringOrNull
  let updatedAt ← (value.member "updatedAt").bind nonEmptyString
  return ⟨allocationId, sidecarId, generation, desiredState, externalRef, updatedAt⟩

/-- The validator `StateFile`. -/
def stateFileOf (value : StateJson) : Option (List AllocationRecord) :=
  match value.member "version", value.member "records" with
  | some (.number (.integer 1)), some (.array records) => records.mapM allocationRecordOf
  | _, _ => none

inductive LoadError
  | invalidJson
  | invalidState
  | duplicate (allocationId : String)
  deriving DecidableEq, Repr

/-- The loop of `initialize`: the records up to the first one whose allocation is there. -/
def addRecords (records : Records) : List AllocationRecord → Except LoadError Unit × Records
  | [] => (.ok (), records)
  | record :: rest =>
    if (records.get record.allocationId).isSome then
      (.error (.duplicate record.allocationId), records)
    else addRecords (records.put record) rest

/-- What `initialize` makes of the file it reads, from the records it finds in memory. -/
def loadInto (records : Records) : Option String → Except LoadError Unit × Records
  | none => (.ok (), records)
  | some raw =>
    match Json.parse stateNumerals raw.toList with
    | none => (.error .invalidJson, records)
    | some parsed =>
      match stateFileOf parsed with
      | none => (.error .invalidState, records)
      | some loaded => addRecords records loaded

/-- A file from which a fresh store is initialized, with these records. -/
def Loads (file : Option String) (records : Records) : Prop :=
  loadInto .empty file = (.ok (), records)

/-! ### The round trip -/

/-- A record the validator accepts. -/
structure AllocationRecord.Valid (r : AllocationRecord) : Prop where
  allocationId : r.allocationId ≠ ""
  sidecarId : r.sidecarId ≠ ""
  updatedAt : r.updatedAt ≠ ""

/-- Every record is one the validator accepts. -/
def Records.Valid (records : Records) : Prop :=
  ∀ k r, records.get k = some r → r.Valid

variable {records : Records} {r : AllocationRecord}

lemma Records.valid_empty : Records.empty.Valid := by
  intro k r h
  simp at h

lemma Records.Valid.put (h : records.Valid) (hr : r.Valid) : (records.put r).Valid := by
  intro k r' hget
  rw [Records.get_put] at hget
  split at hget
  · obtain rfl := Option.some.inj hget
    exact hr
  · exact h k r' hget

lemma reads_natural (n : ℕ) : stateNumerals.Reads (.integer n) := by
  have hw : stateNumerals.write (.integer n) = NumberText.digits n := by
    simp [stateNumerals]
  obtain ⟨hn, hc⟩ := Json.isNumeral_digits n
  refine ⟨by rw [hw]; exact hn, by rw [hw]; exact hc, ?_⟩
  rw [hw]
  simp [stateNumerals, NumberText.signedOf_digits]

/-- **A valid record passes the validator** as it is. -/
lemma allocationRecordOf_recordJson (h : r.Valid) : allocationRecordOf (recordJson r) = some r := by
  obtain ⟨allocationId, sidecarId, generation, desiredState, externalRef, updatedAt⟩ := r
  obtain ⟨ha, hs, hu⟩ := h
  dsimp only at ha hs hu
  cases desiredState <;> cases externalRef <;>
    simp [allocationRecordOf, recordJson, Json.member, nonEmptyString, naturalNumber,
      desiredStateOf, stringOrNull, DesiredState.text, ha, hs, hu]

lemma mem_values (h : r ∈ records.map.values) : records.get r.allocationId = some r := by
  obtain ⟨⟨k, r'⟩, hmem, rfl⟩ := List.mem_map.mp h
  have hget : records.map.get k = some r' := OrderedMap.get_eq_some.2 hmem
  rw [Records.get, records.keyed k r' hget, hget]

lemma mapM_recordJson {l : List AllocationRecord} (hl : ∀ r ∈ l, r.Valid) :
    (l.map recordJson).mapM allocationRecordOf = some l := by
  induction l with
  | nil => rfl
  | cons r l ih =>
    rw [List.map_cons, List.mapM_cons, allocationRecordOf_recordJson (hl r (by simp)),
      ih fun r' hr' => hl r' (by simp [hr'])]
    rfl

lemma stateFileOf_stateJson (h : records.Valid) :
    stateFileOf (stateJson records) = some records.map.values := by
  have hv := mapM_recordJson (l := records.map.values) fun r hr => h _ r (mem_values hr)
  simpa [stateFileOf, stateJson, Json.member] using hv

lemma reads_recordJson (r : AllocationRecord) : (recordJson r).Reads stateNumerals := by
  cases hx : r.externalRef <;>
    simp [recordJson, hx, Json.Reads, Json.ReadsMembers, reads_natural]

lemma reads_recordsJson (l : List AllocationRecord) :
    Json.ReadsElements stateNumerals (l.map recordJson) := by
  induction l with
  | nil => trivial
  | cons r l ih => exact ⟨reads_recordJson r, ih⟩

lemma reads_stateJson (records : Records) : (stateJson records).Reads stateNumerals :=
  ⟨reads_natural 1, reads_recordsJson _, trivial⟩

/-- Adding the rest of the records to the first of them gives all. -/
lemma addRecords_append {rest : List (String × AllocationRecord)} {before : Records}
    (hk : ∀ e ∈ rest, e.2.allocationId = e.1)
    (hall : before.map.entries ++ rest = records.map.entries) :
    addRecords before (rest.map Prod.snd) = (.ok (), records) := by
  induction rest generalizing before with
  | nil =>
    have : before = records := by
      ext1
      ext1
      simpa using hall
    rw [this]
    rfl
  | cons e rest ih =>
    obtain ⟨k, r⟩ := e
    have hr : r.allocationId = k := hk (k, r) (by simp)
    have hnew : k ∉ before.map.keys := by
      have hn := records.map.nodup
      rw [← hall, List.map_append, List.map_cons] at hn
      exact fun hm => (List.nodup_append.mp hn).2.2 k hm k (by simp) rfl
    have hget : before.get k = none := by
      rw [← Option.not_isSome_iff_eq_none, Option.isSome_iff_exists]
      exact fun h => hnew (OrderedMap.mem_keys.2 h)
    rw [List.map_cons, addRecords, hr, hget, if_neg (by simp)]
    have hput : (before.put r).map.entries = before.map.entries ++ [(k, r)] := by
      subst hr
      exact OrderedMap.set_of_not_mem hnew
    refine ih (fun e he => hk e (by simp [he])) ?_
    rw [hput, ← hall]
    simp

/-- **A fresh store reads the records that were written**, in their order. -/
theorem loads_contents (h : records.Valid) : Loads (some (contents records)) records := by
  have hparse : Json.parse stateNumerals (contents records).toList = some (stateJson records) := by
    rw [contents, String.toList_ofList]
    exact Json.parse_write (reads_stateJson records) (by simp [Json.isWhitespace])
  have hadd : addRecords .empty (records.map.entries.map Prod.snd) = (.ok (), records) :=
    addRecords_append (fun e he => records.keyed e.1 e.2 (OrderedMap.get_eq_some.2 he)) rfl
  simpa [Loads, loadInto, hparse, stateFileOf_stateJson h, OrderedMap.values] using hadd

/-- What is read is valid. -/
lemma valid_of_allocationRecordOf {value : StateJson} (h : allocationRecordOf value = some r) :
    r.Valid := by
  have text : ∀ {v : Option StateJson} {x : String}, v.bind nonEmptyString = some x → x ≠ "" := by
    intro v x hx
    obtain ⟨v, -, hv⟩ := Option.bind_eq_some_iff.mp hx
    cases v with
    | string value =>
      simp only [nonEmptyString, Option.ite_none_left_eq_some, Option.some.injEq] at hv
      exact hv.2 ▸ hv.1
    | _ => simp [nonEmptyString] at hv
  simp only [allocationRecordOf, Option.bind_eq_bind, Option.pure_def, Option.bind_eq_some_iff,
    Option.some.injEq] at h
  obtain ⟨a, ha, sidecar, hs, g, -, d, -, x, -, u, hu, rfl⟩ := h
  exact ⟨text (Option.bind_eq_some_iff.mpr ha), text (Option.bind_eq_some_iff.mpr hs),
    text (Option.bind_eq_some_iff.mpr hu)⟩

lemma valid_of_stateFileOf {value : StateJson} {loaded : List AllocationRecord}
    (h : stateFileOf value = some loaded) : ∀ r ∈ loaded, r.Valid := by
  have hall : ∀ (vs : List StateJson) loaded, vs.mapM allocationRecordOf = some loaded →
      ∀ r ∈ loaded, r.Valid := by
    intro vs
    induction vs with
    | nil =>
      rintro loaded h r hr
      obtain rfl : [] = loaded := Option.some.inj h
      simp at hr
    | cons v vs ih =>
      intro loaded h r hr
      simp only [List.mapM_cons, Option.bind_eq_bind, Option.bind_eq_some_iff, Option.pure_def,
        Option.some.injEq] at h
      obtain ⟨r', hv, rest, hvs, rfl⟩ := h
      rcases List.mem_cons.mp hr with rfl | hr
      · exact valid_of_allocationRecordOf hv
      · exact ih rest hvs r hr
  unfold stateFileOf at h
  split at h
  · exact hall _ _ h
  · simp at h

lemma valid_addRecords {l : List AllocationRecord} (hl : ∀ r ∈ l, r.Valid) (h : records.Valid) :
    (addRecords records l).2.Valid := by
  induction l generalizing records with
  | nil => exact h
  | cons r l ih =>
    rw [addRecords]
    split
    · exact h
    · exact ih (fun r' hr' => hl r' (by simp [hr'])) (h.put (hl r (by simp)))

lemma valid_loadInto {file : Option String} (h : records.Valid) :
    (loadInto records file).2.Valid := by
  cases file with
  | none => exact h
  | some raw =>
    simp only [loadInto]
    split
    · exact h
    · rename_i parsed hparse
      split
      · exact h
      · rename_i loaded hloaded
        exact valid_addRecords (valid_of_stateFileOf hloaded) h

end Workbench.Provisioner
