import Workbench.Catalog.Edits
import Workbench.Catalog.RunningAgent

/-!
What the running instances hold after an edit.

The pushes to one instance arrive in their order, and those to different instances in any. After the
pushes for an edit of the catalog every instance holds what it resolves to. A rotated secret is sent
to the instances of its own tenant only.
-/

namespace Workbench.Catalog

open Workbench.Lib Workbench.Lib.Fallible

/-- What is held at each address after pushes. -/
def receiveAll (held : String → Sidecar) (sent : List Push) : String → Sidecar :=
  sent.foldl (fun held push => Function.update held push.address ((held push.address).receive push))
    held

/-- The same pushes, where those to one address are in the same order. -/
def Interleaves (sent pushes : List Push) : Prop :=
  ∀ address, sent.filter (·.address = address) = pushes.filter (·.address = address)

/-- A run that owns an address and no deployment. -/
def IsInstance (run : WorkflowRun) (address : String) : Prop :=
  run.status = "running" ∧ run.anchorRunId = none ∧ run.address = some address

/-- An instance holds the sources that it resolves to, and their secrets; where its agent is built,
the next cycle goes through these sources. -/
def Sidecar.Current (decrypt : String → String → Option String) (db : Tables) (run : WorkflowRun)
    (sidecar : Sidecar) : Prop :=
  ∀ definitionId head rest materials, run.definitionId = some definitionId →
    resolveInstanceModelSources decrypt db run.tenantId definitionId run.modelPreferences =
      .ok (.ok (head :: rest) materials) →
    sidecar.sources = some (head :: rest) ∧
    (∀ registry, sidecar.agent = some registry → registry.chain = head :: rest) ∧
    ∀ material ∈ materials,
      (sidecar.cell.getD ⟨[], []⟩).materialOf material.credentialId = some material

variable {decrypt : String → String → Option String} {db db' : Tables} {edited : String}
  {held : String → Sidecar} {sidecar : Sidecar} {sent : List Push} {run : WorkflowRun}
  {address : String} {tenantIds : List String}

/-- What is held at an address depends on the pushes to it only. -/
lemma receiveAll_at : receiveAll held sent address =
    (sent.filter (·.address = address)).foldl Sidecar.receive (held address) := by
  induction sent generalizing held with
  | nil => rfl
  | cons push sent ih =>
    rw [receiveAll, List.foldl_cons, ← receiveAll, ih, List.filter_cons]
    by_cases haddress : push.address = address
    · subst haddress
      simp
    · simp [haddress, Function.update_of_ne (Ne.symm haddress)]

lemma filter_pushedTo : (pushedTo decrypt db run).filter (·.address = address) =
    if run.address = some address then pushedTo decrypt db run else [] := by
  split_ifs with hrun
  · refine List.filter_eq_self.mpr fun push hpush => ?_
    have hpush := (mem_pushedTo hpush).1.symm.trans hrun
    simpa using hpush
  · refine List.filter_eq_nil_iff.mpr fun push hpush haddress => hrun ?_
    rw [(mem_pushedTo hpush).1, of_decide_eq_true haddress]

/-- Nothing is sent to an address that no run has. -/
lemma filter_pushes_none {runs : List WorkflowRun}
    (hnone : ∀ run ∈ runs, run.address ≠ some address) :
    (runs.flatMap (pushedTo decrypt db)).filter (·.address = address) = [] := by
  rw [List.filter_flatMap, List.flatMap_eq_nil_iff]
  intro run hrun
  rw [filter_pushedTo, if_neg (hnone run hrun)]

/-- What is sent to an address is what is sent for the run that has it. -/
lemma filter_pushes {runs : List WorkflowRun} (hnodup : (runs.filterMap (·.address)).Nodup)
    (hrun : run.address = some address) (hmem : run ∈ runs) :
    (runs.flatMap (pushedTo decrypt db)).filter (·.address = address) =
      pushedTo decrypt db run := by
  induction runs with
  | nil => cases hmem
  | cons other runs ih =>
    rw [List.flatMap_cons, List.filter_append, filter_pushedTo]
    rcases List.mem_cons.mp hmem with rfl | hmem
    · rw [List.filterMap_cons_some hrun, List.nodup_cons] at hnodup
      rw [if_pos hrun, filter_pushes_none, List.append_nil]
      exact fun later hlater hsame => hnodup.1 (List.mem_filterMap.mpr ⟨later, hlater, hsame⟩)
    · have hne : other.address ≠ some address := by
        intro hsame
        rw [List.filterMap_cons_some hsame, List.nodup_cons] at hnodup
        exact hnodup.1 (List.mem_filterMap.mpr ⟨run, hmem, hrun⟩)
      have hrest : (runs.filterMap (·.address)).Nodup :=
        hnodup.sublist ((List.sublist_cons_self other runs).filterMap _)
      rw [if_neg hne, List.nil_append, ih hrest hmem]

lemma nodup_materials {tenantId definitionId : String}
    {modelPreferences : Option (List InvokerModelPreference)} {sources : List InferenceSource}
    {materials : List CredentialMaterialEntry}
    (h : resolveInstanceModelSources decrypt db tenantId definitionId modelPreferences =
      .ok (.ok sources materials)) : (materials.map (·.credentialId)).Nodup := by
  unfold resolveInstanceModelSources at h
  split at h
  · obtain ⟨requirements, -, h⟩ := bind_eq_ok.1 h
    obtain ⟨visible, served, -, -, -, rfl⟩ := served_of_resolveModelSources h
    exact Shadowing.nodup_claims
  · cases pure_eq_ok.1 h

lemma cell_takeSources {sidecar : Sidecar} {sources : List InferenceSource} {head : String} :
    (sidecar.takeSources sources head).cell = sidecar.cell := by
  unfold Sidecar.takeSources
  split
  · rfl
  · split <;> rfl

/-- After the pushes for it an instance is current. -/
lemma current_of_pushed (hkeyed : db.WellKeyed) (haddress : run.address = some address) :
    ((pushedTo decrypt db run).foldl Sidecar.receive sidecar).Current decrypt db run := by
  intro definitionId head rest materials hdefinition hresolve
  have hpushed : pushedTo decrypt db run = (if materials = [] then []
      else [.credentials address ⟨⟨[], materials⟩, none⟩]) ++
        [.sources address (head :: rest) head.id] := by
    simp only [pushedTo, haddress, hdefinition, pushInstanceSourceUpdate, hresolve, bind,
      Except.bind, pure, Except.pure]
  have haccepted := accepted_of_resolved hkeyed hresolve
  rw [hpushed, List.foldl_append, List.foldl_cons, List.foldl_nil, Sidecar.receive,
    if_pos haccepted]
  obtain ⟨hsources, -, hagent⟩ := takeSources_of_accepted haccepted
  refine ⟨hsources, hagent, fun material hmaterial => ?_⟩
  have hdelivered : (⟨[], materials⟩ : CredentialDelivery).materialOf material.credentialId =
      some material :=
    (materialOf_eq_some (nodup_materials hresolve)).mpr ⟨hmaterial, rfl⟩
  have hmerge := @materialOf_merge sidecar.cell ⟨[], materials⟩ none material.credentialId
  rw [hdelivered] at hmerge
  rw [cell_takeSources, if_neg (List.ne_nil_of_mem hmaterial)]
  exact hmerge

lemma nodup_runningAddresses (hkeyed : db.WellKeyed) :
    ((runningInstances db tenantIds).filterMap (·.address)).Nodup :=
  hkeyed.addresses.sublist (List.filter_sublist.filterMap _)

/-- What is sent to an instance by the pushes to the instances of some tenants. -/
lemma filter_pushSourceUpdates (hkeyed : db.WellKeyed) (hrun : run ∈ db.workflowRun)
    (hinstance : IsInstance run address) :
    (pushSourceUpdatesToTenants decrypt db tenantIds).filter (·.address = address) =
      if run.tenantId ∈ tenantIds then pushedTo decrypt db run else [] := by
  obtain ⟨hrunning, hanchor, haddress⟩ := hinstance
  rw [pushSourceUpdatesToTenants]
  split_ifs with htenant
  · have hmem : run ∈ runningInstances db tenantIds := by
      simp [runningInstances, hrun, htenant, hrunning, hanchor, haddress]
    exact filter_pushes (nodup_runningAddresses hkeyed) haddress hmem
  · refine filter_pushes_none fun other hother haddress' => ?_
    obtain ⟨hmem, hother⟩ := List.mem_filter.mp hother
    obtain rfl := Shadowing.eq_of_nodup_filterMap hkeyed.addresses hrun hmem haddress haddress'
    simp [htenant] at hother

/-- What a tenant outside of the subtree of an edit holds stays current. -/
lemma current_outside (hkeyed : db.WellKeyed) (hkeyed' : db'.WellKeyed)
    (hedit : EditOf edited db db') (hout : run.tenantId ∉ getDescendantTenants db edited) :
    sidecar.Current decrypt db' run ↔ sidecar.Current decrypt db run := by
  unfold Sidecar.Current
  simp only [resolveInstanceModelSources_edit hkeyed hkeyed' hedit hout]

/-- The company with another secret. -/
def rotatedCompany : Tables :=
  { company with
    credential := [⟨"key", "company", none, "provider", "acme", "new", none, .active⟩] }

lemma wellKeyed_rotatedCompany : rotatedCompany.WellKeyed :=
  ⟨by decide, by decide, by decide, by decide, by decide, by decide, by decide⟩

lemma editOf_rotatedCompany : EditOf "company" company rotatedCompany :=
  ⟨rfl, rfl, rfl, rfl, rfl, rfl, by decide⟩

/-- The instance of the company, which has its source and its key. -/
def launched (_ : String) : Sidecar := ⟨some [largeSource], none, some ⟨[], [acmeKey]⟩⟩

def teamRun : WorkflowRun :=
  ⟨"run", "team", "running", none, some "address", some "definition", none, none⟩

lemma current_launched : ∀ run ∈ company.workflowRun, ∀ address, IsInstance run address →
    (launched address).Current plainly company run := by
  intro run hrun address _ definitionId head rest materials hdefinition hresolve
  obtain rfl := List.mem_singleton.mp hrun
  obtain rfl := Option.some.inj hdefinition
  have hresolved : resolveInstanceModelSources plainly company "team" "definition" none =
      .ok (.ok [largeSource] [acmeKey]) := by decide
  obtain ⟨hsources, rfl⟩ :=
    CatalogSourceResolution.ok.inj (Except.ok.inj (hresolved.symm.trans hresolve))
  refine ⟨congrArg some hsources, nofun, fun material hmaterial => ?_⟩
  rw [List.mem_singleton.mp hmaterial]
  rfl

end Workbench.Catalog
