import Workbench.Catalog.Convergence

/-!
A change of a credential, and what the hub sends after it.

A new secret is sent to the instances of the tenant, and a revocation to all deployments of its
subtree. A deployment that connects again is not sent a revoked credential, but an instance whose
sources are resolved again is.
-/

namespace Workbench.Catalog

open Workbench.Lib Workbench.Lib.Fallible

/-- The secret is the one that is stored, as the cipher has closed it. -/
structure UpdateCredential where
  name : Option String
  secret : Option String
  scopes : Option (Option (List String))
  status : Option CredentialStatus
  deriving DecidableEq, Repr

def UpdateCredential.apply (body : UpdateCredential) (row : Credential) : Credential :=
  { row with
    name := body.name.getD row.name
    secret := body.secret.getD row.secret
    scopes := body.scopes.getD row.scopes
    status := body.status.getD row.status }

/-- The credentials of a tenant that the id is that of, changed. -/
def updateCredential (tenantId credentialId : String) (body : UpdateCredential)
    (row : Credential) : Credential :=
  if row.id = credentialId ∧ row.tenantId = tenantId then body.apply row else row

def Tables.updated (db : Tables) (tenantId credentialId : String) (body : UpdateCredential) :
    Tables :=
  { db with credential := db.credential.map (updateCredential tenantId credentialId body) }

/-- What is sent after a change; where it revokes, the new secret is not. -/
def pushesAfter (decrypt : String → String → Option String) (db : Tables)
    (tenantId credentialId : String) (body : UpdateCredential) : List Push :=
  (if body.secret.isSome && body.status ≠ some .revoked then pushSourceUpdates decrypt db tenantId
    else []) ++
  if body.status = some .revoked then pushCredentialRevoke db tenantId credentialId else []

/-- The tables after the change and what is sent, unless the tenant has no such credential. -/
def patchCredential (decrypt : String → String → Option String) (db : Tables)
    (tenantId credentialId : String) (body : UpdateCredential) : Option (Tables × List Push) :=
  if db.credential.any fun row => row.id = credentialId && row.tenantId = tenantId then
    let updated := db.updated tenantId credentialId body
    some (updated, pushesAfter decrypt updated tenantId credentialId body)
  else none

variable {decrypt : String → String → Option String} {db db' : Tables}
  {tenantId owner edited credentialId address : String} {body : UpdateCredential}
  {pushes sent : List Push} {held : String → Sidecar} {run : WorkflowRun}

lemma patch_eq_some (h : patchCredential decrypt db owner credentialId body = some (db', pushes)) :
    db' = db.updated owner credentialId body ∧
      (∃ row ∈ db.credential, row.id = credentialId ∧ row.tenantId = owner) ∧
      (body.status = some .revoked → pushes = pushCredentialRevoke db' owner credentialId) := by
  unfold patchCredential at h
  split_ifs at h with hany
  obtain ⟨rfl, rfl⟩ := Prod.mk.inj (Option.some.inj h)
  refine ⟨rfl, by simpa using hany, fun hrevoked => ?_⟩
  simp [pushesAfter, hrevoked]

lemma id_updateCredential {row : Credential} :
    (updateCredential owner credentialId body row).id = row.id := by
  unfold updateCredential
  split_ifs <;> rfl

lemma tenantId_updateCredential {row : Credential} :
    (updateCredential owner credentialId body row).tenantId = row.tenantId := by
  unfold updateCredential
  split_ifs <;> rfl

/-- A change of a credential is an edit of the rows of its tenant. -/
lemma editOf_patch (h : patchCredential decrypt db owner credentialId body = some (db', pushes)) :
    EditOf owner db db' := by
  obtain ⟨rfl, -, -⟩ := patch_eq_some h
  refine ⟨rfl, rfl, rfl, rfl, rfl, rfl, ?_⟩
  unfold Tables.updated
  dsimp only
  induction db.credential with
  | nil => rfl
  | cons row rows ih =>
    rw [List.map_cons, List.filter_cons, List.filter_cons, ih, tenantId_updateCredential]
    split_ifs with hother
    · have hsame : updateCredential owner credentialId body row = row :=
        if_neg fun hof => of_decide_eq_true hother hof.2
      rw [hsame]
    · rfl

lemma wellKeyed_patch (hkeyed : db.WellKeyed)
    (h : patchCredential decrypt db owner credentialId body = some (db', pushes)) :
    db'.WellKeyed := by
  obtain ⟨rfl, -, -⟩ := patch_eq_some h
  have hids : (db.credential.map (updateCredential owner credentialId body)).map (·.id) =
      db.credential.map (·.id) := by
    rw [List.map_map]
    exact List.map_congr_left fun row _ => id_updateCredential
  exact { hkeyed with credential := hids ▸ hkeyed.credential }

/-- The change of the status alone. -/
def revocation : UpdateCredential := ⟨none, none, none, some .revoked⟩

lemma getAncestorChain_updated : getAncestorChain (db.updated owner credentialId body) tenantId =
    getAncestorChain db tenantId := getAncestorChain_congr rfl

/-- The catalog has nothing of the credentials. -/
lemma listVisibleOfferings_updated :
    listVisibleOfferings (db.updated owner credentialId body) tenantId =
      listVisibleOfferings db tenantId := by
  simp only [listVisibleOfferings, listVisibleModels, listVisibleProviders,
    getAncestorChain_updated]
  rfl

/-- A credential is found where it was, as it is after the change. -/
lemma resolveCredentialById_updated {chain : List String}
    (hchain : getAncestorChain db tenantId = .ok chain) (id : String) :
    resolveCredentialById (db.updated owner credentialId body) tenantId id =
      (resolveCredentialById db tenantId id).map
        (Option.map (updateCredential owner credentialId body)) := by
  have hrows : (db.updated owner credentialId body).credential =
      db.credential.map (updateCredential owner credentialId body) := rfl
  have hids : (fun row : Credential => decide (row.id = id)) ∘
      updateCredential owner credentialId body = fun row => decide (row.id = id) := by
    funext row
    simp only [Function.comp_apply, id_updateCredential]
  unfold resolveCredentialById
  rw [hrows, List.find?_map, hids]
  cases db.credential.find? (·.id = id) with
  | none => rfl
  | some row =>
    simp only [Option.map_some, getAncestorChain_updated, hchain, tenantId_updateCredential, bind,
      Except.bind, pure, Except.pure, Except.map]
    split_ifs <;> rfl

/-- **A source does not depend on the status** of its credential. -/
lemma buildSource_revocation {chain : List String}
    (hchain : getAncestorChain db tenantId = .ok chain) (resolved : ResolvedOffering) :
    buildSource decrypt (db.updated owner credentialId revocation) tenantId resolved =
      buildSource decrypt db tenantId resolved := by
  have hprincipal : ∀ row, (updateCredential owner credentialId revocation row).principalId =
      row.principalId := by
    intro row
    unfold updateCredential
    split_ifs <;> rfl
  have hopen : ∀ row, openSecret decrypt (updateCredential owner credentialId revocation row) =
      openSecret decrypt row := by
    intro row
    unfold updateCredential
    split_ifs <;> rfl
  simp only [buildSource, resolveCredentialById_updated hchain]
  cases resolved.provider.credentialId with
  | none => rfl
  | some id =>
    dsimp only
    cases resolveCredentialById db tenantId id with
    | error fault => rfl
    | ok found =>
      cases found with
      | none => rfl
      | some row => simp only [Except.map, Option.map_some, bind, Except.bind, hprincipal, hopen]

/-- What an instance is resolved to does not, either. -/
lemma resolveInstanceModelSources_revocation
    (h : patchCredential decrypt db owner credentialId revocation = some (db', pushes))
    {definitionId : String} {modelPreferences : Option (List InvokerModelPreference)} :
    resolveInstanceModelSources decrypt db' tenantId definitionId modelPreferences =
      resolveInstanceModelSources decrypt db tenantId definitionId modelPreferences := by
  obtain ⟨rfl, -, -⟩ := patch_eq_some h
  have hdefinitions : (db.updated owner credentialId revocation).workflowDefinition =
      db.workflowDefinition := rfl
  refine resolveInstanceModelSources_congr hdefinitions listVisibleOfferings_updated
    fun visible hvisible => ?_
  obtain ⟨chain, hchain⟩ := chain_of_listVisibleOfferings hvisible
  exact funext (buildSource_revocation hchain)

/-- What is sent to a deployment for a revocation. -/
lemma filter_pushCredentialRevoke (hrun : run ∈ db.workflowRun)
    (hrunning : run.status = "running") (haddress : run.address = some address)
    (hbelow : run.tenantId ∈ getDescendantTenants db owner) :
    (pushCredentialRevoke db owner credentialId).filter (·.address = address) =
      [.credentials address ⟨⟨[], []⟩, some [credentialId]⟩] := by
  have hmem : run ∈ db.workflowRun.filter fun run =>
      run.tenantId ∈ getDescendantTenants db owner && run.status = "running" &&
        run.address.isSome := by
    simp [hrun, hbelow, hrunning, haddress]
  unfold pushCredentialRevoke
  generalize (db.workflowRun.filter fun run =>
    run.tenantId ∈ getDescendantTenants db owner && run.status = "running" &&
      run.address.isSome) = runs at hmem
  have hin : address ∈ (OrderedSet.empty.insertAll (runs.filterMap (·.address))).elements :=
    OrderedSet.mem_insertAll.2 (.inr (List.mem_filterMap.mpr ⟨run, hmem, haddress⟩))
  have hnodup := (OrderedSet.empty.insertAll (runs.filterMap (·.address))).nodup
  rw [List.filter_map]
  have hsame : (fun push : Push => decide (push.address = address)) ∘
      (fun address => .credentials address ⟨⟨[], []⟩, some [credentialId]⟩) =
        fun other => decide (other = address) := rfl
  rw [hsame, List.filter_eq, List.count_eq_one_of_mem hnodup hin]
  rfl

/-- A credential that a source of an instance refers to is owned by its tenant or above it. -/
lemma below_owner (hkeyed : db.WellKeyed) {definitionId : String}
    {modelPreferences : Option (List InvokerModelPreference)} {sources : List InferenceSource}
    {materials : List CredentialMaterialEntry} {material : CredentialMaterialEntry}
    (hresolve : resolveInstanceModelSources decrypt db tenantId definitionId modelPreferences =
      .ok (.ok sources materials)) (hmaterial : material ∈ materials)
    (howner : ∃ row ∈ db.credential, row.id = material.credentialId ∧ row.tenantId = owner) :
    tenantId ∈ getDescendantTenants db owner := by
  obtain ⟨row, hrow, hid, rfl⟩ := howner
  unfold resolveInstanceModelSources at hresolve
  split at hresolve
  · obtain ⟨requirements, -, hsources⟩ := bind_eq_ok.1 hresolve
    obtain ⟨visible, -, hvisible, -⟩ := served_of_resolveModelSources hsources
    obtain ⟨chain, hchain⟩ := chain_of_listVisibleOfferings hvisible
    obtain ⟨row', ⟨hfind, hmem, -⟩, -⟩ := usable_of_material hsources hchain hmaterial
    have hfind' := Shadowing.find?_of_nodup hkeyed.credential hrow
    rw [hid, hfind] at hfind'
    rw [← Option.some.inj hfind']
    exact (mem_getDescendantTenants hkeyed).mpr ((mem_chain hchain).mp hmem)
  · cases pure_eq_ok.1 hresolve

/-- **A revoked credential comes back with the next edit.** The revocation takes it from an instance
that uses it. When the catalog of a tenant is edited after that, the instances in its subtree have
their sources resolved again, which does not ask for the status, and are given it again. -/
theorem revoked_until_edit (hkeyed : db.WellKeyed) {definitionId : String}
    {head : InferenceSource} {rest : List InferenceSource}
    {materials : List CredentialMaterialEntry} {material : CredentialMaterialEntry}
    {more : List Push}
    (hpatch : patchCredential decrypt db owner material.credentialId revocation =
      some (db', pushes))
    (hsent : Interleaves sent pushes)
    (hmore : Interleaves more (pushSourceUpdatesSubtree decrypt db' edited))
    (hrun : run ∈ db.workflowRun) (hinstance : IsInstance run address)
    (hbelow : run.tenantId ∈ getDescendantTenants db edited)
    (hdefinition : run.definitionId = some definitionId)
    (hresolve : resolveInstanceModelSources decrypt db run.tenantId definitionId
      run.modelPreferences = .ok (.ok (head :: rest) materials))
    (hmaterial : material ∈ materials) :
    ((receiveAll held sent address).cell.getD ⟨[], []⟩).materialOf material.credentialId = none ∧
      ((receiveAll (receiveAll held sent) more address).cell.getD ⟨[], []⟩).materialOf
        material.credentialId = some material := by
  have hkeyed' := wellKeyed_patch hkeyed hpatch
  have hedit := editOf_patch hpatch
  obtain ⟨-, howner, hpushes⟩ := patch_eq_some hpatch
  constructor
  · have hrun' : run ∈ db'.workflowRun := hedit.runs ▸ hrun
    have hunder : run.tenantId ∈ getDescendantTenants db' owner := by
      rw [getDescendantTenants_congr hedit.tenant]
      exact below_owner hkeyed hresolve hmaterial howner
    rw [receiveAll_at, hsent address, hpushes rfl,
      filter_pushCredentialRevoke hrun' hinstance.1 hinstance.2.2 hunder]
    have hmerge := @materialOf_merge (held address).cell ⟨[], []⟩ (some [material.credentialId])
      material.credentialId
    rw [Option.getD_some, if_pos List.mem_cons_self] at hmerge
    exact hmerge
  · have hresolve' := hresolve
    rw [← resolveInstanceModelSources_revocation hpatch] at hresolve'
    have hcurrent : (receiveAll (receiveAll held sent) more address).Current decrypt db' run := by
      rw [← getDescendantTenants_congr hedit.tenant] at hbelow
      rw [receiveAll_at, hmore address, pushSourceUpdatesSubtree,
        filter_pushSourceUpdates hkeyed' (hedit.runs ▸ hrun) hinstance, if_pos hbelow]
      exact current_of_pushed hkeyed' hinstance.2.2
    exact (hcurrent definitionId head rest materials hdefinition hresolve').2.2 material hmaterial

theorem acmeKey_until_edit :
    ((receiveAll launched (pushCredentialRevoke company "company" "key") "address").cell.getD
      ⟨[], []⟩).materialOf "key" = none ∧
    ((receiveAll (receiveAll launched (pushCredentialRevoke company "company" "key"))
      (pushSourceUpdatesSubtree plainly (company.updated "company" "key" revocation) "team")
      "address").cell.getD ⟨[], []⟩).materialOf "key" = some acmeKey :=
  @revoked_until_edit plainly company (company.updated "company" "key" revocation) "company" "team"
    "address" (pushCredentialRevoke company "company" "key")
    (pushCredentialRevoke company "company" "key") launched teamRun wellKeyed_company "definition"
    largeSource [] [acmeKey] acmeKey _ rfl (fun _ => rfl) (fun _ => rfl) List.mem_cons_self
    ⟨rfl, rfl, rfl⟩ (by decide) rfl (by decide) List.mem_cons_self

end Workbench.Catalog
