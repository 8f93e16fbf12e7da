import Workbench.ErrorSink.Redact
import Workbench.Lib.JsonLiteral
import Workbench.Lib.OrderedMap

/-!
What is struck out of the data that goes with a report.

The data is a tree of records. What stands under a key that looks like a secret's goes as a whole,
every other text is redacted. Each record is built anew by assigning its keys, and an assignment to
`__proto__` makes no key.
-/

namespace Workbench.ErrorSink

open Workbench.Lib Workbench.Lib.Regex

/-! ### Keys -/

/-- `/token|secret|password|passwd|api[-_]?key|apikey|credential|authorization|cookie/i` -/
def secretKeyPattern : Regex :=
  alts [caseless "token", caseless "secret", caseless "password", caseless "passwd",
    seqs [caseless "api", opt hyphenOrUnderscore, caseless "key"], caseless "apikey",
    caseless "credential", caseless "authorization", caseless "cookie"]

/-- The shape of a provider's key: its start, a label, and a value -/
def providerKeyShape : Regex :=
  seqs [boundary, providerPrefix,
    alt (seq (character '-') (alts (["ant", "svcacct", "dc", "live", "proj", "test", "dev", "prod",
        "org", "key", "secret"].map caseless)))
      (seq (character '_') (alts (["live", "test"].map caseless))),
    hyphenOrUnderscore, atLeast (one isKeyChar) 4, boundary]

def isSecretKey (key : String) : Bool := secretKeyPattern.test key || providerKeyShape.test key

/-! ### Values -/

variable {ν : Type}

def redactedValue : Json ν := .string (String.ofList marker)

/-- `record[key] = value`, where the record was made as `{}`. -/
def assign (record : List (String × Json ν)) (entry : String × Json ν) : List (String × Json ν) :=
  if entry.1 = Json.protoKey then record else OrderedMap.insert entry.1 entry.2 record

/-- The own members of a record after the assignments. -/
def assigned (entries : List (String × Json ν)) : List (String × Json ν) := entries.foldl assign []

mutual

def redactValue (key : String) (value : Json ν) : Json ν :=
  if isSecretKey key then redactedValue
  else
    match value with
    | .string text => .string (redactText text)
    | .array vs => .array (redactEach key vs)
    | .object ms => .object (assigned (redactEntries ms))
    | .null => .null
    | .bool b => .bool b
    | .number n => .number n

def redactEach (key : String) : List (Json ν) → List (Json ν)
  | [] => []
  | v :: vs => redactValue key v :: redactEach key vs

def redactEntries : List (String × Json ν) → List (String × Json ν)
  | [] => []
  | (key, v) :: ms => (key, redactValue key v) :: redactEntries ms

end

def redactRecord (record : List (String × Json ν)) : List (String × Json ν) :=
  assigned (redactEntries record)

def redactExtra (extra : Option (List (String × Json ν))) : Option (List (String × Json ν)) :=
  extra.map redactRecord

/-! ### What should become of a value -/

mutual

/-- The value under a key as it should be reported. -/
def Masked (key : String) (value : Json ν) (w : Json ν) : Prop :=
  if isSecretKey key then w = redactedValue
  else
    match value with
    | .string text => w = .string (redactText text)
    | .array vs => ∃ ws, w = .array ws ∧ MaskedEach key vs ws
    | .object ms =>
      ∃ ns, w = .object ns ∧ (ns.map Prod.fst).Perm (ms.map Prod.fst) ∧ MaskedEntries ms ns
    | .null => w = .null
    | .bool b => w = .bool b
    | .number n => w = .number n

/-- The same number of elements, each as it should be. -/
def MaskedEach (key : String) : List (Json ν) → List (Json ν) → Prop
  | [], ws => ws = []
  | v :: vs, ws => ∃ w rest, ws = w :: rest ∧ Masked key v w ∧ MaskedEach key vs rest

/-- Each member is among those of the new record as it should be. -/
def MaskedEntries : List (String × Json ν) → List (String × Json ν) → Prop
  | [], _ => True
  | (key, v) :: ms, ns => (∃ w, (key, w) ∈ ns ∧ Masked key v w) ∧ MaskedEntries ms ns

end

/-- The new record has the keys of the old one, and under each key the value that should be
reported. -/
def MaskedRecord (ms ns : List (String × Json ν)) : Prop :=
  (ns.map Prod.fst).Perm (ms.map Prod.fst) ∧ MaskedEntries ms ns

mutual

/-- Every record in the value has each of its keys once. -/
def DistinctKeys : Json ν → Prop
  | .array vs => DistinctEach vs
  | .object ms => (ms.map Prod.fst).Nodup ∧ DistinctEntries ms
  | _ => True

def DistinctEach : List (Json ν) → Prop
  | [] => True
  | v :: vs => DistinctKeys v ∧ DistinctEach vs

def DistinctEntries : List (String × Json ν) → Prop
  | [] => True
  | (_, v) :: ms => DistinctKeys v ∧ DistinctEntries ms

end

/-- The data of a report. -/
structure Extra (ν : Type) where
  members : List (String × Json ν)
  nodup : (members.map Prod.fst).Nodup
  distinct : DistinctEntries members

mutual

/-- No record of the value has a key `__proto__`, but for what stands under a secret's key. -/
def Assignable (key : String) (value : Json ν) : Prop :=
  isSecretKey key ∨
    match value with
    | .array vs => AssignableEach key vs
    | .object ms => Json.protoKey ∉ ms.map Prod.fst ∧ AssignableEntries ms
    | _ => True

def AssignableEach (key : String) : List (Json ν) → Prop
  | [] => True
  | v :: vs => Assignable key v ∧ AssignableEach key vs

def AssignableEntries : List (String × Json ν) → Prop
  | [] => True
  | (key, v) :: ms => Assignable key v ∧ AssignableEntries ms

end

/-! ### Records -/

lemma fst_redactEntries (ms : List (String × Json ν)) :
    (redactEntries ms).map Prod.fst = ms.map Prod.fst := by
  induction ms with
  | nil => rfl
  | cons m ms ih =>
    obtain ⟨key, v⟩ := m
    rw [redactEntries, List.map_cons, List.map_cons, ih]

/-- No assignment makes a key `__proto__`. -/
lemma protoKey_not_mem_assigned (entries : List (String × Json ν)) :
    Json.protoKey ∉ (assigned entries).map Prod.fst := by
  have hfold : ∀ (entries record : List (String × Json ν)),
      Json.protoKey ∉ record.map Prod.fst →
        Json.protoKey ∉ (entries.foldl assign record).map Prod.fst := by
    intro entries
    induction entries with
    | nil => exact fun _ h => h
    | cons entry entries ih =>
      intro record h
      refine ih _ ?_
      rw [assign]
      split_ifs with hproto
      · exact h
      · rw [OrderedMap.mem_keys_insert, not_or]
        exact ⟨Ne.symm hproto, h⟩
  exact hfold entries [] List.not_mem_nil

lemma insert_of_not_mem {key : String} {v : Json ν} {record : List (String × Json ν)}
    (h : key ∉ record.map Prod.fst) : OrderedMap.insert key v record = record ++ [(key, v)] := by
  induction record with
  | nil => rfl
  | cons entry record ih =>
    obtain ⟨other, w⟩ := entry
    rw [List.map_cons, List.mem_cons, not_or] at h
    rw [OrderedMap.insert, if_neg (Ne.symm h.1), ih h.2, List.cons_append]

/-- Distinct keys other than `__proto__` are all made, in their order. -/
lemma assigned_eq {entries : List (String × Json ν)} (hnodup : (entries.map Prod.fst).Nodup)
    (hproto : Json.protoKey ∉ entries.map Prod.fst) : assigned entries = entries := by
  have hfold : ∀ (entries record : List (String × Json ν)),
      ((record ++ entries).map Prod.fst).Nodup → Json.protoKey ∉ entries.map Prod.fst →
        entries.foldl assign record = record ++ entries := by
    intro entries
    induction entries with
    | nil => exact fun record _ _ => (List.append_nil record).symm
    | cons entry entries ih =>
      intro record hnodup hproto
      rw [List.map_cons, List.mem_cons, not_or] at hproto
      have hnew : entry.1 ∉ record.map Prod.fst := by
        rw [List.map_append, List.nodup_append] at hnodup
        exact fun h => hnodup.2.2 _ h _ (by simp) rfl
      have hassign : assign record entry = record ++ [entry] := by
        rw [assign, if_neg (Ne.symm hproto.1), insert_of_not_mem hnew]
      rw [List.foldl_cons, hassign, ih _ (by simpa using hnodup) hproto.2, List.append_assoc]
      rfl
  exact hfold entries [] hnodup hproto

/-! ### The whole tree -/

/-- A key that stands once in a record has the value that stands with it. -/
lemma eq_of_mem_redactEntries {ms : List (String × Json ν)} {key : String} {v w : Json ν}
    (hnodup : (ms.map Prod.fst).Nodup) (hv : (key, v) ∈ ms) (hw : (key, w) ∈ redactEntries ms) :
    w = redactValue key v := by
  induction ms with
  | nil => cases hv
  | cons m ms ih =>
    obtain ⟨other, u⟩ := m
    obtain ⟨hnot, hnodup⟩ := List.nodup_cons.mp hnodup
    rw [redactEntries] at hw
    rcases List.mem_cons.mp hv with hhead | hrest <;>
      rcases List.mem_cons.mp hw with hhead' | hrest'
    · cases hhead
      cases hhead'
      rfl
    · cases hhead
      have hkey : key ∈ (redactEntries ms).map Prod.fst := List.mem_map_of_mem hrest'
      exact absurd (fst_redactEntries ms ▸ hkey) hnot
    · cases hhead'
      have hkey : key ∈ ms.map Prod.fst := List.mem_map_of_mem hrest
      exact absurd hkey hnot
    · exact ih hnodup hrest hrest'

lemma mem_redactEntries {ms : List (String × Json ν)} {key : String} {v : Json ν}
    (h : (key, v) ∈ ms) : (key, redactValue key v) ∈ redactEntries ms := by
  induction ms with
  | nil => cases h
  | cons m ms ih =>
    obtain ⟨other, u⟩ := m
    rw [redactEntries]
    rcases List.mem_cons.mp h with h | h
    · cases h
      exact List.mem_cons_self
    · exact List.mem_cons_of_mem _ (ih h)

/-- A record keeps its keys only without a key `__proto__`, and then it is built as it was. -/
lemma assigned_redactEntries {ms : List (String × Json ν)} (hnodup : (ms.map Prod.fst).Nodup)
    (hproto : Json.protoKey ∉ ms.map Prod.fst) :
    assigned (redactEntries ms) = redactEntries ms :=
  assigned_eq (by rwa [fst_redactEntries]) (by rwa [fst_redactEntries])

/-- What is said of the members of a record, said of the record. -/
lemma maskedRecord_iff_of {ms : List (String × Json ν)} (hnodup : (ms.map Prod.fst).Nodup)
    (h : ∀ ns : List (String × Json ν),
      (∀ key v, (key, v) ∈ ms → ∀ w, (key, w) ∈ ns ↔ w = redactValue key v) →
        (MaskedEntries ms ns ↔ AssignableEntries ms)) :
    MaskedRecord ms (redactRecord ms) ↔
      Json.protoKey ∉ ms.map Prod.fst ∧ AssignableEntries ms := by
  have hmem : ∀ key v, (key, v) ∈ ms →
      ∀ w, (key, w) ∈ redactEntries ms ↔ w = redactValue key v := by
    intro key v hv w
    exact ⟨eq_of_mem_redactEntries hnodup hv, fun hw => hw ▸ mem_redactEntries hv⟩
  constructor
  · rintro ⟨hkeys, hentries⟩
    have hproto : Json.protoKey ∉ ms.map Prod.fst := fun hproto =>
      protoKey_not_mem_assigned _ (hkeys.mem_iff.mpr hproto)
    rw [redactRecord, assigned_redactEntries hnodup hproto] at hentries
    exact ⟨hproto, (h _ hmem).mp hentries⟩
  · rintro ⟨hproto, hentries⟩
    rw [redactRecord, assigned_redactEntries hnodup hproto]
    refine ⟨?_, (h _ hmem).mpr hentries⟩
    rw [fst_redactEntries]

mutual

lemma masked_iff (key : String) : (v : Json ν) → DistinctKeys v →
    (Masked key v (redactValue key v) ↔ Assignable key v)
  | .string _ | .null | .bool _ | .number _ => fun _ => by
    cases hkey : isSecretKey key <;> simp [Masked, redactValue, Assignable, hkey]
  | .array vs => fun hdistinct => by
    rw [Masked, redactValue, Assignable]
    split_ifs with hkey
    · simp [hkey]
    · have hvs := maskedEach_iff key vs hdistinct
      simp only [Json.array.injEq, exists_eq_left', hkey, Bool.false_eq_true, false_or, hvs]
  | .object ms => fun hdistinct => by
    obtain ⟨hnodup, hms⟩ := hdistinct
    rw [Masked, redactValue, Assignable]
    split_ifs with hkey
    · simp [hkey]
    · simp only [Json.object.injEq, exists_eq_left', hkey, Bool.false_eq_true, false_or]
      exact maskedRecord_iff_of hnodup fun ns => maskedEntries_iff ns ms hms

lemma maskedEach_iff (key : String) : (vs : List (Json ν)) → DistinctEach vs →
    (MaskedEach key vs (redactEach key vs) ↔ AssignableEach key vs)
  | [] => fun _ => by simp [MaskedEach, redactEach, AssignableEach]
  | v :: vs => fun hdistinct => by
    have hv := masked_iff key v hdistinct.1
    have hvs := maskedEach_iff key vs hdistinct.2
    rw [MaskedEach, redactEach, AssignableEach, ← hv, ← hvs]
    simp

/-- Members of a record whose values stand redacted under their keys, and nothing else does. -/
lemma maskedEntries_iff (ns : List (String × Json ν)) : (ms : List (String × Json ν)) →
    DistinctEntries ms → (∀ key v, (key, v) ∈ ms → ∀ w, (key, w) ∈ ns ↔ w = redactValue key v) →
      (MaskedEntries ms ns ↔ AssignableEntries ms)
  | [] => fun _ _ => by simp [MaskedEntries, AssignableEntries]
  | (key, v) :: ms => fun hdistinct hns => by
    have hv := masked_iff key v hdistinct.1
    have hms := maskedEntries_iff ns ms hdistinct.2 fun k u h => hns k u (List.mem_cons_of_mem _ h)
    rw [MaskedEntries, AssignableEntries, ← hv, ← hms]
    simp [hns key v List.mem_cons_self]

end

/-- **The data of a report is redacted as it should be**, with every key of every record kept, if
and only if no record that is gone through has a key `__proto__`. -/
theorem redactExtra_masked_iff (extra : Extra ν) :
    (∃ redacted, redactExtra (some extra.members) = some redacted ∧
        MaskedRecord extra.members redacted) ↔
      Json.protoKey ∉ extra.members.map Prod.fst ∧ AssignableEntries extra.members := by
  rw [← maskedRecord_iff_of extra.nodup fun ns => maskedEntries_iff ns _ extra.distinct]
  simp [redactExtra]

/-- A key `__proto__` is lost. -/
theorem protoKey_lost :
    redactExtra (some [("__proto__", .number 1), ("count", .number 2)] :
        Option (List (String × Json ℕ))) = some [("count", .number 2)] ∧
      ¬ MaskedRecord [("__proto__", .number 1), ("count", .number 2)]
        ([("count", .number 2)] : List (String × Json ℕ)) := by
  have hcount : isSecretKey "count" = false := by decide +kernel
  constructor
  · simp [redactExtra, redactRecord, redactEntries, assigned, assign, Json.protoKey,
      OrderedMap.insert, redactValue, hcount]
  · rintro ⟨hkeys, -⟩
    exact absurd hkeys.length_eq (by decide)

end Workbench.ErrorSink
