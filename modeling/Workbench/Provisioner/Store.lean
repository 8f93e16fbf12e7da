import Mathlib.Order.Nat
import Workbench.Lib.OrderedMap

/-!
The records of the allocation state store and what its three operations decide.

An operation looks at the record of its allocation and either answers at once or answers
together with a record to persist. Here an operation is that decision alone; the queue in
front of it and the state file behind it are in `StateStore`.
-/

namespace Workbench.Provisioner

open Workbench.Lib

inductive DesiredState
  | ensured
  | destroyed
  deriving DecidableEq, Repr

structure AllocationRecord where
  allocationId : String
  sidecarId : String
  generation : ℕ
  desiredState : DesiredState
  externalRef : Option String
  updatedAt : String
  deriving DecidableEq, Repr

/-- The records by allocation: every record stands under its own allocation id. -/
@[ext] structure Records where
  map : OrderedMap String AllocationRecord
  keyed : ∀ k r, map.get k = some r → r.allocationId = k

namespace Records

def empty : Records := ⟨.empty, by simp⟩

def get (m : Records) (allocationId : String) : Option AllocationRecord := m.map.get allocationId

def put (m : Records) (r : AllocationRecord) : Records where
  map := m.map.set r.allocationId r
  keyed := by
    intro k r' h
    rw [OrderedMap.get_set] at h
    split at h
    · rename_i hk; obtain rfl := Option.some.inj h; exact hk.symm
    · exact m.keyed k r' h

variable {m : Records} {k : String} {r : AllocationRecord}

@[simp] lemma get_empty : empty.get k = none := rfl

@[grind =] lemma get_put : (m.put r).get k = if k = r.allocationId then some r else m.get k :=
  OrderedMap.get_set

lemma get_put_of_ne (h : k ≠ r.allocationId) : (m.put r).get k = m.get k := by simp [get_put, h]

@[grind →] lemma allocationId_of_get (h : m.get k = some r) : r.allocationId = k := m.keyed k r h

end Records

structure ObserveArgs where
  allocationId : String
  sidecarId : String
  generation : ℕ
  deriving DecidableEq, Repr

structure RecordUnitArgs where
  allocationId : String
  generation : ℕ
  externalRef : String
  deriving DecidableEq, Repr

inductive StoreOp
  | observeEnsure (args : ObserveArgs)
  | observeDestroy (args : ObserveArgs)
  | recordUnit (args : RecordUnitArgs)
  deriving DecidableEq, Repr

inductive RejectionCode
  | staleGeneration
  | generationDestroyed
  | requestConflict
  deriving DecidableEq, Repr

def RejectionCode.text : RejectionCode → String
  | .staleGeneration => "stale_generation"
  | .generationDestroyed => "generation_destroyed"
  | .requestConflict => "request_conflict"

/-- What `observeEnsure` and `observeDestroy` answer. -/
inductive ObserveResult
  | observed (record : AllocationRecord)
  | rejected (code : RejectionCode) (message : String)
  deriving DecidableEq, Repr

/-- An answer, with the record to persist before it is given. -/
abbrev Decision (α : Type) := α × Option AllocationRecord

def requestConflict (allocationId : String) : Decision ObserveResult :=
  (.rejected .requestConflict
    ("Allocation " ++ allocationId ++ " is already bound to another sidecar"), none)

def staleGeneration (generation existing : ℕ) : Decision ObserveResult :=
  (.rejected .staleGeneration
    ("Generation " ++ toString generation ++ " is older than " ++ toString existing), none)

def generationDestroyed (generation : ℕ) : Decision ObserveResult :=
  (.rejected .generationDestroyed
    ("Generation " ++ toString generation ++ " has already been destroyed"), none)

/-- The record of an ensured generation that has no unit yet. -/
def ensuredRecord (now : String) (args : ObserveArgs) : AllocationRecord where
  allocationId := args.allocationId
  sidecarId := args.sidecarId
  generation := args.generation
  desiredState := .ensured
  externalRef := none
  updatedAt := now

def destroyedRecord (now : String) (args : ObserveArgs) (externalRef : Option String) :
    AllocationRecord where
  allocationId := args.allocationId
  sidecarId := args.sidecarId
  generation := args.generation
  desiredState := .destroyed
  externalRef := externalRef
  updatedAt := now

def observeEnsure (now : String) (records : Records) (args : ObserveArgs) :
    Decision ObserveResult :=
  let observed := (.observed (ensuredRecord now args), some (ensuredRecord now args))
  match records.get args.allocationId with
  | none => observed
  | some existing =>
    if existing.sidecarId ≠ args.sidecarId then requestConflict args.allocationId
    else if existing.generation > args.generation then
      staleGeneration args.generation existing.generation
    else if existing.generation = args.generation then
      if existing.desiredState = .destroyed then generationDestroyed args.generation
      else (.observed existing, none)
    else observed

def observeDestroy (now : String) (records : Records) (args : ObserveArgs) :
    Decision ObserveResult :=
  let observed (externalRef : Option String) : Decision ObserveResult :=
    (.observed (destroyedRecord now args externalRef), some (destroyedRecord now args externalRef))
  match records.get args.allocationId with
  | none => observed none
  | some existing =>
    if existing.sidecarId ≠ args.sidecarId then requestConflict args.allocationId
    else if existing.generation > args.generation then
      staleGeneration args.generation existing.generation
    else if existing.generation = args.generation ∧ existing.desiredState = .destroyed then
      (.observed existing, none)
    else observed existing.externalRef

/-- The record of a unit that runs. -/
def unitRecord (now : String) (record : AllocationRecord) (externalRef : String) :
    AllocationRecord :=
  { record with externalRef := some externalRef, updatedAt := now }

def recordUnit (now : String) (records : Records) (args : RecordUnitArgs) : Decision Bool :=
  match records.get args.allocationId with
  | none => (false, none)
  | some record =>
    if record.generation ≠ args.generation ∨ record.desiredState ≠ .ensured then (false, none)
    else (true, some (unitRecord now record args.externalRef))

inductive StoreAnswer
  | observed (result : ObserveResult)
  | recorded (done : Bool)
  deriving DecidableEq, Repr

def StoreOp.decide (now : String) (records : Records) : StoreOp → Decision StoreAnswer
  | .observeEnsure args => (Provisioner.observeEnsure now records args).map .observed id
  | .observeDestroy args => (Provisioner.observeDestroy now records args).map .observed id
  | .recordUnit args => (Provisioner.recordUnit now records args).map .recorded id

def StoreOp.allocationId : StoreOp → String
  | .observeEnsure args => args.allocationId
  | .observeDestroy args => args.allocationId
  | .recordUnit args => args.allocationId

/-- The records after an operation whose write succeeds. -/
def StoreOp.apply (now : String) (records : Records) (op : StoreOp) : Records :=
  match (op.decide now records).2 with
  | some r => records.put r
  | none => records

/-! ### What each operation can decide -/

variable {now : String} {m m' m'' : Records} {k : String} {r r' r'' : AllocationRecord}

/-- The branches of `observeEnsure`: a refusal, the ensured record that is there, or a new
record over nothing or over an older generation. -/
inductive EnsureDecision (now : String) (m : Records) (args : ObserveArgs) :
    Decision ObserveResult → Prop
  | refused (code : RejectionCode) (message : String) :
    EnsureDecision now m args (.rejected code message, none)
  | present (r : AllocationRecord) (get : m.get args.allocationId = some r)
    (sidecar : r.sidecarId = args.sidecarId) (generation : r.generation = args.generation)
    (state : r.desiredState = .ensured) : EnsureDecision now m args (.observed r, none)
  | fresh (older : ∀ r, m.get args.allocationId = some r →
      r.sidecarId = args.sidecarId ∧ r.generation < args.generation) :
    EnsureDecision now m args (.observed (ensuredRecord now args), some (ensuredRecord now args))

lemma observeEnsure_spec (now : String) (m : Records) (args : ObserveArgs) :
    EnsureDecision now m args (observeEnsure now m args) := by
  unfold observeEnsure
  split
  · rename_i h
    exact .fresh (by simp [h])
  · rename_i r h
    split_ifs with h1 h2 h3 h4
    · exact .refused _ _
    · exact .refused _ _
    · exact .refused _ _
    · refine .present r h (not_not.mp h1) h3 ?_
      cases hs : r.desiredState with
      | ensured => rfl
      | destroyed => exact absurd hs h4
    · refine .fresh fun r' h' => ?_
      obtain rfl : r = r' := Option.some.inj (h.symm.trans h')
      exact ⟨not_not.mp h1, by omega⟩

/-- The branches of `observeDestroy`; a new record keeps the reference of the old one. -/
inductive DestroyDecision (now : String) (m : Records) (args : ObserveArgs) :
    Decision ObserveResult → Prop
  | refused (code : RejectionCode) (message : String) :
    DestroyDecision now m args (.rejected code message, none)
  | present (r : AllocationRecord) (get : m.get args.allocationId = some r)
    (sidecar : r.sidecarId = args.sidecarId) (generation : r.generation = args.generation)
    (state : r.desiredState = .destroyed) :
    DestroyDecision now m args (.observed r, none)
  | fresh (externalRef : Option String) (missing : m.get args.allocationId = none →
      externalRef = none)
    (older : ∀ r, m.get args.allocationId = some r → r.sidecarId = args.sidecarId ∧
      r.generation ≤ args.generation ∧ r.externalRef = externalRef) :
    DestroyDecision now m args
      (.observed (destroyedRecord now args externalRef),
        some (destroyedRecord now args externalRef))

lemma observeDestroy_spec (now : String) (m : Records) (args : ObserveArgs) :
    DestroyDecision now m args (observeDestroy now m args) := by
  unfold observeDestroy
  split
  · rename_i h
    exact .fresh none (fun _ => rfl) (by simp [h])
  · rename_i r h
    split_ifs with h1 h2 h3
    · exact .refused _ _
    · exact .refused _ _
    · exact .present r h (not_not.mp h1) h3.1 h3.2
    · refine .fresh r.externalRef (by simp [h]) fun r' h' => ?_
      obtain rfl : r = r' := Option.some.inj (h.symm.trans h')
      exact ⟨not_not.mp h1, by omega, rfl⟩

/-- The branches of `recordUnit`: only the ensured record of the very generation takes a unit. -/
inductive RecordDecision (now : String) (m : Records) (args : RecordUnitArgs) :
    Decision Bool → Prop
  | no (other : ∀ r, m.get args.allocationId = some r →
      r.generation ≠ args.generation ∨ r.desiredState = .destroyed) :
    RecordDecision now m args (false, none)
  | yes (r : AllocationRecord) (get : m.get args.allocationId = some r)
    (generation : r.generation = args.generation) (state : r.desiredState = .ensured) :
    RecordDecision now m args (true, some (unitRecord now r args.externalRef))

lemma recordUnit_spec (now : String) (m : Records) (args : RecordUnitArgs) :
    RecordDecision now m args (recordUnit now m args) := by
  unfold recordUnit
  split
  · rename_i h
    exact .no (by simp [h])
  · rename_i r h
    split_ifs with h1
    · refine .no fun r' h' => ?_
      obtain rfl : r = r' := Option.some.inj (h.symm.trans h')
      cases hs : r.desiredState with
      | ensured => simpa [hs] using h1
      | destroyed => exact .inr rfl
    · rw [not_or, not_not, not_not] at h1
      exact .yes r h h1.1 h1.2

/-! ### How records evolve -/

/-- A record that may stand where another stood: the same sidecar, no older generation, and
within one generation neither the destruction nor the unit taken back. -/
structure Follows (r r' : AllocationRecord) : Prop where
  sidecar : r'.sidecarId = r.sidecarId
  generation : r.generation ≤ r'.generation
  destroyed : r'.generation = r.generation → r.desiredState = .destroyed →
    r'.desiredState = .destroyed
  started : r'.generation = r.generation → r.externalRef ≠ none → r'.externalRef ≠ none

lemma Follows.refl (r : AllocationRecord) : Follows r r := ⟨rfl, le_rfl, fun _ h => h, fun _ h => h⟩

lemma Follows.trans (h : Follows r r') (h' : Follows r' r'') : Follows r r'' where
  sidecar := h'.sidecar.trans h.sidecar
  generation := h.generation.trans h'.generation
  destroyed := fun hg hd => by
    have := h.generation; have := h'.generation
    exact h'.destroyed (by omega) (h.destroyed (by omega) hd)
  started := fun hg hd => by
    have := h.generation; have := h'.generation
    exact h'.started (by omega) (h.started (by omega) hd)

/-- Every record is still there, or one that follows it. -/
def Evolves (m m' : Records) : Prop :=
  ∀ k r, m.get k = some r → ∃ r', m'.get k = some r' ∧ Follows r r'

lemma Evolves.refl (m : Records) : Evolves m m := fun _ r h => ⟨r, h, .refl r⟩

lemma Evolves.trans (h : Evolves m m') (h' : Evolves m' m'') : Evolves m m'' := by
  intro k r hr
  obtain ⟨r', hr', hf⟩ := h k r hr
  obtain ⟨r'', hr'', hf'⟩ := h' k r' hr'
  exact ⟨r'', hr'', hf.trans hf'⟩

lemma evolves_put (h : ∀ old, m.get r.allocationId = some old → Follows old r) :
    Evolves m (m.put r) := by
  intro k old hold
  by_cases hk : k = r.allocationId
  · subst hk
    exact ⟨r, by simp [Records.get_put], h old hold⟩
  · exact ⟨old, by rw [Records.get_put_of_ne hk, hold], .refl old⟩

/-- What an operation persists follows what it found. -/
lemma decide_follows {op : StoreOp} (h : (op.decide now m).2 = some r) :
    r.allocationId = op.allocationId ∧
      ∀ old, m.get op.allocationId = some old → Follows old r := by
  cases op with
  | observeEnsure args =>
    have hs := observeEnsure_spec now m args
    simp only [StoreOp.decide, Prod.map_snd, id_eq] at h
    generalize observeEnsure now m args = d at hs h
    cases hs with
    | refused | present => simp at h
    | fresh older =>
      obtain rfl := Option.some.inj h
      refine ⟨rfl, fun old hold => ?_⟩
      obtain ⟨hs, hg⟩ := older old hold
      refine ⟨hs.symm, hg.le, fun hg' => ?_, fun hg' => ?_⟩ <;>
        · simp only [ensuredRecord] at hg'; omega
  | observeDestroy args =>
    have hs := observeDestroy_spec now m args
    simp only [StoreOp.decide, Prod.map_snd, id_eq] at h
    generalize observeDestroy now m args = d at hs h
    cases hs with
    | refused | present => simp at h
    | fresh ref missing older =>
      obtain rfl := Option.some.inj h
      refine ⟨rfl, fun old hold => ?_⟩
      obtain ⟨hs, hg, hr⟩ := older old hold
      exact ⟨hs.symm, hg, fun _ _ => rfl, fun _ h => by rwa [← hr]⟩
  | recordUnit args =>
    have hs := recordUnit_spec now m args
    simp only [StoreOp.decide, Prod.map_snd, id_eq] at h
    generalize recordUnit now m args = d at hs h
    cases hs with
    | no => simp at h
    | yes old get generation state =>
      obtain rfl := Option.some.inj h
      have hk : old.allocationId = args.allocationId := Records.allocationId_of_get get
      refine ⟨hk, fun old' hold => ?_⟩
      obtain rfl : old = old' := Option.some.inj (get.symm.trans hold)
      exact ⟨rfl, le_rfl, fun _ h => h, fun _ _ => by simp [unitRecord]⟩

lemma evolves_decide {op : StoreOp} (h : (op.decide now m).2 = some r) : Evolves m (m.put r) := by
  obtain ⟨hk, hf⟩ := decide_follows h
  exact evolves_put fun old hold => hf old (hk ▸ hold)

/-- **Every operation moves every record forward.** -/
theorem evolves_apply (now : String) (m : Records) (op : StoreOp) :
    Evolves m (op.apply now m) := by
  unfold StoreOp.apply
  split
  · rename_i h; exact evolves_decide h
  · exact .refl m

/-- An operation touches no record but that of its allocation. -/
lemma get_apply_of_ne {op : StoreOp} (h : k ≠ op.allocationId) :
    (op.apply now m).get k = m.get k := by
  unfold StoreOp.apply
  split
  · rename_i r hr
    exact Records.get_put_of_ne ((decide_follows hr).1 ▸ h)
  · rfl

/-- A reference is recorded by `recordUnit` and kept by the records that follow. -/
lemma externalRef_apply {op : StoreOp} {ref : String} (h : (op.apply now m).get k = some r)
    (hr : r.externalRef = some ref) :
    (∃ old, m.get k = some old ∧ old.externalRef = some ref ∧ old.generation ≤ r.generation) ∨
    ∃ args, op = .recordUnit args ∧ k = args.allocationId ∧ ref = args.externalRef ∧
      r.generation = args.generation := by
  unfold StoreOp.apply at h
  split at h
  case h_2 => exact .inl ⟨r, h, hr, le_rfl⟩
  rename_i new hnew
  by_cases hk : k = new.allocationId
  case neg => exact .inl ⟨r, by rwa [Records.get_put_of_ne hk] at h, hr, le_rfl⟩
  subst hk
  obtain rfl : new = r := by simpa [Records.get_put] using h
  cases op with
  | observeEnsure args =>
    have hs := observeEnsure_spec now m args
    simp only [StoreOp.decide, Prod.map_snd, id_eq] at hnew
    generalize observeEnsure now m args = d at hs hnew
    cases hs with
    | refused | present => simp at hnew
    | fresh older =>
      obtain rfl := Option.some.inj hnew
      simp [ensuredRecord] at hr
  | observeDestroy args =>
    have hs := observeDestroy_spec now m args
    simp only [StoreOp.decide, Prod.map_snd, id_eq] at hnew
    generalize observeDestroy now m args = d at hs hnew
    cases hs with
    | refused | present => simp at hnew
    | fresh externalRef missing older =>
      obtain rfl := Option.some.inj hnew
      obtain rfl : externalRef = some ref := hr
      cases hg : m.get args.allocationId with
      | none => simpa using missing hg
      | some old =>
        obtain ⟨-, hle, he⟩ := older old hg
        exact .inl ⟨old, hg, he, hle⟩
  | recordUnit args =>
    have hs := recordUnit_spec now m args
    simp only [StoreOp.decide, Prod.map_snd, id_eq] at hnew
    generalize recordUnit now m args = d at hs hnew
    cases hs with
    | no => simp at hnew
    | yes old get generation state =>
      obtain rfl := Option.some.inj hnew
      have hk : old.allocationId = args.allocationId := Records.allocationId_of_get get
      exact .inr ⟨args, rfl, hk, by simpa [unitRecord] using hr.symm, generation⟩

end Workbench.Provisioner
