import Workbench.Catalog.Confinement
import Workbench.Catalog.CredentialCell

/-!
What the hub sends to running deployments when the catalog or a credential changes.

After an edit of a tenant's catalog the sources of every running instance in its subtree are
resolved again. After a credential was revoked its id is sent to every running deployment in the
subtree. A deployment that connects again is told what became of the credentials it started with.
-/

namespace Workbench.Catalog

open Workbench.Lib Workbench.Lib.Fallible

inductive Push
  | credentials (address : String) (frame : CredentialFrame)
  | sources (address : String) (sources : List InferenceSource) (head : String)
  deriving DecidableEq, Repr

def Push.address : Push → String
  | credentials address _ | sources address _ _ => address

section

-- `decrypt secret aad`, where the cipher opens the secret
variable (decrypt : String → String → Option String) (db : Tables)

/-- The material goes before the sources that refer to it. -/
def pushInstanceSourceUpdate (address definitionId tenantId : String)
    (modelPreferences : Option (List InvokerModelPreference)) : Except Fault (List Push) := do
  match ← resolveInstanceModelSources decrypt db tenantId definitionId modelPreferences with
  | .ok (head :: rest) materials =>
    return (if materials = [] then [] else [.credentials address ⟨⟨[], materials⟩, none⟩]) ++
      [.sources address (head :: rest) head.id]
  | _ => return []

/-- The runs that own an address and no deployment. -/
def runningInstances (tenantIds : List String) : List WorkflowRun :=
  db.workflowRun.filter fun run => run.tenantId ∈ tenantIds && run.status = "running" &&
    run.anchorRunId.isNone && run.address.isSome

/-- What is sent for one instance; a failure is logged and stops that instance only. -/
def pushedTo (run : WorkflowRun) : List Push :=
  match run.address, run.definitionId with
  | some address, some definitionId =>
    match pushInstanceSourceUpdate decrypt db address definitionId run.tenantId
      run.modelPreferences with
    | .ok pushes => pushes
    | .error _ => []
  | _, _ => []

def pushSourceUpdatesToTenants (tenantIds : List String) : List Push :=
  (runningInstances db tenantIds).flatMap (pushedTo decrypt db)

def pushSourceUpdates (tenantId : String) : List Push :=
  pushSourceUpdatesToTenants decrypt db [tenantId]

def pushSourceUpdatesSubtree (tenantId : String) : List Push :=
  pushSourceUpdatesToTenants decrypt db (getDescendantTenants db tenantId)

def pushCredentialRevoke (tenantId credentialId : String) : List Push :=
  let runs := db.workflowRun.filter fun run =>
    run.tenantId ∈ getDescendantTenants db tenantId && run.status = "running" &&
      run.address.isSome
  let addresses := OrderedSet.empty.insertAll (runs.filterMap (·.address))
  addresses.elements.map fun address => .credentials address ⟨⟨[], []⟩, some [credentialId]⟩

def pushCredentialReconcile (agentAddress : String) : Except Fault (List Push) := do
  let some run := db.workflowRun.find? (·.address = some agentAddress) | return []
  let some refs := run.credentialRefs | return []
  let materials ← reresolveCurrentMaterials decrypt db refs.credentialIds
  let resolvedIds := materials.map (·.credentialId)
  let revoke := refs.credentialIds.filter (· ∉ resolvedIds)
  let bindings := refs.bindings.filter (·.credentialId ∈ resolvedIds)
  return [.credentials agentAddress
    ⟨⟨bindings, materials⟩, if revoke = [] then none else some revoke⟩]

end

section

variable {decrypt : String → String → Option String} {db : Tables} {address : String}
  {run : WorkflowRun} {refs : CredentialRefs} {pushes : List Push}

/-- What is sent for an instance goes to its address, and binds nothing. -/
lemma mem_pushedTo {push : Push} (h : push ∈ pushedTo decrypt db run) :
    run.address = some push.address ∧
      ∀ address frame, push = .credentials address frame → frame.delivery.bindings = [] := by
  unfold pushedTo at h
  split at h
  · next owner definitionId howner _ =>
    rw [howner]
    split at h
    · next hsent =>
      obtain ⟨resolution, -, hpushes⟩ := bind_eq_ok.1 hsent
      split at hpushes
      · obtain rfl := pure_eq_ok.1 hpushes
        rcases List.mem_append.mp h with h | h
        · split_ifs at h
          · cases h
          · obtain rfl := List.mem_singleton.mp h
            refine ⟨rfl, fun address frame hframe => ?_⟩
            obtain ⟨-, rfl⟩ := Push.credentials.inj hframe
            rfl
        · obtain rfl := List.mem_singleton.mp h
          refine ⟨rfl, fun address frame hframe => ?_⟩
          cases hframe
      · obtain rfl := pure_eq_ok.1 hpushes
        cases h
    · cases h
  · cases h

/-! ### Connecting again -/

/-- What is revoked by name is what is not there any more. -/
lemma mem_revoke (ids resolved : List String) (credentialId : String) : credentialId ∈
    (if ids.filter (· ∉ resolved) = [] then none
      else some (ids.filter (· ∉ resolved))).getD [] ↔
    credentialId ∈ ids ∧ credentialId ∉ resolved := by
  have hmem : credentialId ∈ ids.filter (· ∉ resolved) ↔
      credentialId ∈ ids ∧ credentialId ∉ resolved := by simp
  rw [← hmem]
  split_ifs with hnil
  · rw [hnil]; rfl
  · rfl

/-- What is sent to a deployment that connects again has the material of all that is bound. -/
lemma backed_reconcile {frame : CredentialFrame} {agentAddress : String}
    (h : pushCredentialReconcile decrypt db agentAddress = .ok pushes)
    (hmem : .credentials address frame ∈ pushes) : frame.delivery.Backed := by
  unfold pushCredentialReconcile at h
  split at h
  · split at h
    · obtain ⟨materials, -, h⟩ := bind_eq_ok.1 h
      obtain rfl := pure_eq_ok.1 h
      obtain ⟨-, rfl⟩ := Push.credentials.inj (List.mem_singleton.mp hmem)
      intro binding hbinding
      simpa using (List.mem_filter.mp hbinding).2
    · obtain rfl := pure_eq_ok.1 h
      cases hmem
  · obtain rfl := pure_eq_ok.1 h
    cases hmem

section

variable {ids : List String} {bindings : List CredentialBindingDescriptor}
  {materials : List CredentialMaterialEntry} {credentialId : String}

/-- The material of a credential among those that are resolved again. -/
lemma materialOf_reresolved (h : reresolveCurrentMaterials decrypt db ids = .ok materials)
    (material : CredentialMaterialEntry) :
    (⟨bindings, materials⟩ : CredentialDelivery).materialOf credentialId = some material ↔
      credentialId ∈ ids ∧ currentMaterial decrypt db credentialId = .ok (some material) := by
  obtain ⟨-, hmem, hnodup⟩ := gather_eq_ok (fun _ _ => credentialId_currentMaterial) h
  rw [materialOf_eq_some hnodup, hmem]
  constructor
  · rintro ⟨⟨id, hid, hcurrent⟩, rfl⟩
    obtain rfl := credentialId_currentMaterial hcurrent
    exact ⟨hid, hcurrent⟩
  · rintro ⟨hid, hcurrent⟩
    exact ⟨⟨credentialId, hid, hcurrent⟩, credentialId_currentMaterial hcurrent⟩

/-- There is none for a credential that is not asked for, or is not there any more. -/
lemma materialOf_reresolved_eq_none (h : reresolveCurrentMaterials decrypt db ids = .ok materials)
    (hnot : credentialId ∉ ids ∨ currentMaterial decrypt db credentialId = .ok none) :
    (⟨bindings, materials⟩ : CredentialDelivery).materialOf credentialId = none := by
  refine Option.eq_none_iff_forall_ne_some.mpr fun material hmaterial => ?_
  obtain ⟨hid, hcurrent⟩ := (materialOf_reresolved h material).mp hmaterial
  rcases hnot with hnot | hnot
  · exact hnot hid
  · rw [hnot] at hcurrent
    cases hcurrent

lemma not_mem_reresolved (h : reresolveCurrentMaterials decrypt db ids = .ok materials)
    (hgone : currentMaterial decrypt db credentialId = .ok none) :
    credentialId ∉ materials.map (·.credentialId) := by
  intro hin
  obtain ⟨-, hmem, -⟩ := gather_eq_ok (fun _ _ => credentialId_currentMaterial) h
  obtain ⟨material, hmaterial, rfl⟩ := List.mem_map.mp hin
  obtain ⟨id, -, hcurrent⟩ := (hmem material).mp hmaterial
  rw [← credentialId_currentMaterial hcurrent, hgone] at hcurrent
  cases hcurrent

end

/-- **A deployment that connects again** holds of each credential that it started with what that one
is now: its material, or nothing, if it was deleted or revoked. What it got later stays. -/
theorem reconciled (hrun : db.workflowRun.find? (·.address = some address) = some run)
    (hrefs : run.credentialRefs = some refs)
    (h : pushCredentialReconcile decrypt db address = .ok pushes) :
    ∃ frame, pushes = [.credentials address frame] ∧ frame.delivery.Backed ∧ ∀ current credentialId,
      let cell := mergeCredentialDelivery current frame.delivery frame.revoke
      (credentialId ∈ refs.credentialIds →
        currentMaterial decrypt db credentialId = .ok (cell.materialOf credentialId)) ∧
      (credentialId ∉ refs.credentialIds →
        cell.materialOf credentialId = (current.getD ⟨[], []⟩).materialOf credentialId) := by
  have hbacked := fun frame => @backed_reconcile decrypt db address pushes frame address h
  simp only [pushCredentialReconcile, hrun, hrefs] at h
  obtain ⟨materials, hmaterials, h⟩ := bind_eq_ok.1 h
  obtain rfl := pure_eq_ok.1 h
  refine ⟨_, rfl, hbacked _ List.mem_cons_self, fun current credentialId => ?_⟩
  have hrevoke := mem_revoke refs.credentialIds (materials.map (·.credentialId)) credentialId
  refine ⟨fun hid => ?_, fun hid => ?_⟩
  · obtain ⟨found, hfound⟩ :=
      (gather_eq_ok (fun _ _ => credentialId_currentMaterial) hmaterials).1 credentialId hid
    rw [hfound, materialOf_merge]
    cases found with
    | some material => rw [(materialOf_reresolved hmaterials material).mpr ⟨hid, hfound⟩]; rfl
    | none =>
      rw [materialOf_reresolved_eq_none hmaterials (.inr hfound),
        if_pos (hrevoke.mpr ⟨hid, not_mem_reresolved hmaterials hfound⟩)]
      rfl
  · have hkept := fun h => hid (hrevoke.mp h).1
    rw [materialOf_merge, materialOf_reresolved_eq_none hmaterials (.inl hid), if_neg hkept]
    rfl

/-- The company, where the instance started with the key. -/
def startedCompany (refs : CredentialRefs) : Tables :=
  { company with workflowRun := [⟨"run", "team", "running", none, some "address",
      some "definition", none, some refs⟩] }

theorem reconciled_company : ∃ frame : CredentialFrame,
    [Push.credentials "address" ⟨⟨[], [acmeKey]⟩, none⟩] = [.credentials "address" frame] ∧
      frame.delivery.Backed := by
  obtain ⟨frame, hframe, hbacked, -⟩ := @reconciled plainly (startedCompany ⟨["key"], []⟩) "address"
    _ ⟨["key"], []⟩ [.credentials "address" ⟨⟨[], [acmeKey]⟩, none⟩] rfl rfl (by decide)
  exact ⟨frame, hframe, hbacked⟩

end

end Workbench.Catalog
