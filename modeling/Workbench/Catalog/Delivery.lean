import Workbench.Catalog.CredentialPush

/-!
The credentials that a deployment starts with.

Each binding of the definition is resolved to one credential, and the sources of inference bring
theirs. What is delivered is written down without the secrets, for a deployment that connects again.
-/

namespace Workbench.Catalog

open Workbench.Lib Workbench.Lib.Fallible

inductive CredentialSource
  | tenant
  | creator
  | invoker
  deriving DecidableEq, Repr

def CredentialSource.name : CredentialSource → String
  | tenant => "tenant"
  | creator => "creator"
  | invoker => "invoker"

structure CredentialRequirement where
  providerName : String
  scopes : Option (List String)
  source : CredentialSource
  name : Option String
  deriving DecidableEq, Repr

/-- A tool package or a handler of actions. -/
inductive Consumer
  | package (name : String)
  | action (handler : String)
  deriving DecidableEq, Repr

structure CredentialBinding where
  consumer : Consumer
  handle : String
  provider : String
  name : Option String
  deriving DecidableEq, Repr

def toolConsumer (packageName : String) : String := "tool:" ++ packageName

def actionConsumer (handler : String) : String := "action:" ++ handler

def credentialBindingConsumer (binding : CredentialBinding) : String :=
  match binding.consumer with
  | .package name => toolConsumer name
  | .action handler => actionConsumer handler

structure BindingContext where
  provider : String
  consumer : String
  handle : String
  deriving DecidableEq, Repr

inductive DeliveryFailureCode
  | unresolved
  | noOrigin
  | ambiguous
  deriving DecidableEq, Repr

structure CredentialDeliveryFailure where
  code : DeliveryFailureCode
  binding : BindingContext
  message : String
  deriving DecidableEq, Repr

inductive BuildCredentialDeliveryResult
  | ok (delivery : Option CredentialDelivery)
  | failed (reason : CredentialDeliveryFailure)
  deriving DecidableEq, Repr

def resolveProviderByName (db : Tables) (tenantId name : String) :
    Except Fault (Option Provider) := do
  let chain ← getAncestorChain db tenantId
  return chain.findSome? fun tid => db.provider.find? fun row =>
    row.tenantId = tid && row.name = name

/-- The active credentials of a tenant for a provider that a requirement admits. -/
def matchingCredentials (db : Tables) (tid providerId : String) (principalFilter : Option String)
    (requirement : CredentialRequirement) : List Credential :=
  db.credential.filter fun row => row.tenantId = tid && row.providerId = providerId &&
    row.status = .active &&
    (match principalFilter with
      | none => row.principalId.isNone
      | some "" => true
      | some principalId => row.principalId = some principalId) &&
    (match requirement.name with
      | none | some "" => true
      | some name => row.name = name) &&
    (requirement.scopes.getD []).all (· ∈ row.scopes.getD [])

/-- The nearest tenant that has a match decides; it must have one only. -/
def soleMatch (db : Tables) (providerId : String) (principalFilter : Option String)
    (requirement : CredentialRequirement) : List String → Except Fault (Option Credential)
  | [] => .ok none
  | tid :: tids =>
    match matchingCredentials db tid providerId principalFilter requirement with
    | [] => soleMatch db providerId principalFilter requirement tids
    | [sole] => .ok (some sole)
    | matching => .error (.ambiguous matching.length requirement.providerName
        requirement.source.name tid)

def resolveCredentialRequirement (db : Tables) (tenantId : String)
    (requirement : CredentialRequirement) (creatorPrincipalId invokerPrincipalId : Option String) :
    Except Fault (Option (Credential × Provider)) := do
  let some resolvedProvider ← resolveProviderByName db tenantId requirement.providerName
    | return none
  let chain ← getAncestorChain db tenantId
  let principalFilter := match requirement.source with
    | .tenant => none
    | .creator => creatorPrincipalId
    | .invoker => invokerPrincipalId
  let found ← soleMatch db resolvedProvider.id principalFilter requirement chain
  return found.map fun credential => (credential, resolvedProvider)

section

-- `decrypt secret aad`, where the cipher opens the secret
variable (decrypt : String → String → Option String) (db : Tables) (tenantId : String)

/-- The delivery for the bindings, which stops at the first that cannot be delivered. -/
def deliverBindings : List CredentialBinding → OrderedMap String CredentialMaterialEntry →
    List CredentialBindingDescriptor → Except Fault BuildCredentialDeliveryResult
  | [], materials, descriptors =>
    .ok (.ok (if descriptors = [] then none else some ⟨descriptors, materials.values⟩))
  | binding :: bindings, materials, descriptors => do
    let consumer := credentialBindingConsumer binding
    let context : BindingContext := ⟨binding.provider, consumer, binding.handle⟩
    match resolveCredentialRequirement db tenantId ⟨binding.provider, none, .tenant, binding.name⟩
      none none with
    | .error (.ambiguous count providerName source tid) =>
      let message := ((Fault.ambiguous count providerName source tid).message).getD ""
      return .failed ⟨.ambiguous, context,
        s!"Ambiguous credential for the binding on provider {binding.provider} " ++
          s!"(consumer {consumer}, handle {binding.handle}): {message}"⟩
    | .error fault => throw fault
    | .ok none =>
      return .failed ⟨.unresolved, context,
        s!"No credential resolves the binding for provider {binding.provider} " ++
          s!"(consumer {consumer}, handle {binding.handle})"⟩
    | .ok (some (credential, provider)) =>
      let origin := provider.apiBaseUrl.getD ""
      if origin = "" then
        return .failed ⟨.noOrigin, context,
          s!"Provider {binding.provider} has no API base URL; cannot deliver an origin-pinned " ++
            s!"credential (consumer {consumer}, handle {binding.handle})"⟩
      let descriptor : CredentialBindingDescriptor := ⟨binding.handle, credential.id, consumer⟩
      if materials.has credential.id then
        deliverBindings bindings materials (descriptors ++ [descriptor])
      else
        let material : CredentialMaterialEntry :=
          ⟨credential.id, provider.plugin, origin, ← openSecret decrypt credential⟩
        deliverBindings bindings (materials.set credential.id material)
          (descriptors ++ [descriptor])

def buildCredentialDelivery (bindings : List CredentialBinding) :
    Except Fault BuildCredentialDeliveryResult :=
  deliverBindings decrypt db tenantId bindings .empty []

/-- What a deployment starts with: the material of the bindings, then that of the sources. -/
def deployDelivery (bindings : List CredentialBinding) (inferenceCredentialIds : List String) :
    Except Fault (Option CredentialDelivery) := do
  let credentials ← match ← buildCredentialDelivery decrypt db tenantId bindings with
    | .ok delivery => pure delivery
    | .failed reason => throw (.deployFailed reason.message)
  let held := credentials.getD ⟨[], []⟩
  let inferenceMaterials ← resolveInferenceMaterials decrypt db tenantId inferenceCredentialIds
  let materials := (Shadowing.claims (·.credentialId)
    (Shadowing.puts (·.credentialId) .empty held.materials) inferenceMaterials).values
  return if materials = [] then none else some ⟨held.bindings, materials⟩

/-- What is written down of a delivery, without the secrets. -/
def credentialRefsFromDelivery (delivery : CredentialDelivery) : CredentialRefs where
  credentialIds := delivery.materials.map (·.credentialId)
  bindings := delivery.bindings

end

/-! ### What a deployment may be given -/

variable {decrypt : String → String → Option String} {db : Tables} {tenantId : String}
  {chain : List String} {requirement : CredentialRequirement} {row : Credential}
  {provider : Provider} {material : CredentialMaterialEntry}

lemma mem_matchingCredentials {tid providerId : String}
    (h : row ∈ matchingCredentials db tid providerId none requirement) :
    row ∈ db.credential ∧ row.tenantId = tid ∧ row.providerId = providerId ∧
      row.status = .active ∧ row.principalId = none := by
  obtain ⟨hrow, hmatch⟩ := List.mem_filter.mp h
  simp only [Bool.and_eq_true, decide_eq_true_eq, Option.isNone_iff_eq_none] at hmatch
  obtain ⟨⟨⟨⟨⟨htenant, hprovider⟩, hstatus⟩, hprincipal⟩, -⟩, -⟩ := hmatch
  exact ⟨hrow, htenant, hprovider, hstatus, hprincipal⟩

lemma mem_of_soleMatch {providerId : String} {principalFilter : Option String}
    (h : soleMatch db providerId principalFilter requirement chain = .ok (some row)) :
    ∃ tid ∈ chain, row ∈ matchingCredentials db tid providerId principalFilter requirement := by
  induction chain with
  | nil => cases h
  | cons tid tids ih =>
    rw [soleMatch] at h
    split at h
    · obtain ⟨tid', htid', hrow⟩ := ih h
      exact ⟨tid', List.mem_cons_of_mem _ htid', hrow⟩
    · next sole hsole =>
      obtain rfl := Option.some.inj (Except.ok.inj h)
      exact ⟨tid, List.mem_cons_self, by rw [hsole]; exact List.mem_singleton.mpr rfl⟩
    · cases h

/-- The material of a credential that the tenant or one above it owns, as its provider describes
it. -/
structure Owned (decrypt : String → String → Option String) (db : Tables) (tenantId : String)
    (material : CredentialMaterialEntry) : Prop where
  row : ∃ row chain, getAncestorChain db tenantId = .ok chain ∧
    Usable db chain material.credentialId row ∧ materialOf decrypt db row = .ok material

/-- A binding is resolved to an active credential of the hierarchy, and to its provider. -/
lemma usable_of_requirement (hkeyed : db.WellKeyed) {name : Option String} {providerName : String}
    (h : resolveCredentialRequirement db tenantId ⟨providerName, none, .tenant, name⟩ none none =
      .ok (some (row, provider))) :
    ∃ chain, getAncestorChain db tenantId = .ok chain ∧ Usable db chain row.id row ∧
      row.status = .active ∧ db.provider.find? (·.id = row.providerId) = some provider := by
  obtain ⟨found, hprovider, h⟩ := bind_eq_ok.1 h
  cases found with
  | none => cases pure_eq_ok.1 h
  | some resolved =>
    obtain ⟨chain, hchain, h⟩ := bind_eq_ok.1 h
    obtain ⟨sole, hsole, h⟩ := bind_eq_ok.1 h
    obtain ⟨credential, rfl, hpair⟩ := Option.map_eq_some_iff.mp (pure_eq_ok.1 h)
    obtain ⟨rfl, rfl⟩ := Prod.mk.inj hpair
    obtain ⟨tid, htid, hmem⟩ := mem_of_soleMatch hsole
    obtain ⟨hrow, htenant, hid, hstatus, hprincipal⟩ := mem_matchingCredentials hmem
    refine ⟨chain, hchain, ⟨?_, htenant ▸ htid, hprincipal⟩, hstatus, ?_⟩
    · exact Shadowing.find?_of_nodup hkeyed.credential hrow
    · obtain ⟨chain', -, hfind⟩ := bind_eq_ok.1 hprovider
      obtain ⟨tid', -, hname⟩ := List.exists_of_findSome?_eq_some (pure_eq_ok.1 hfind)
      rw [hid]
      exact Shadowing.find?_of_nodup hkeyed.provider (List.mem_of_find?_eq_some hname)

lemma materialOf_eq {secret : String}
    (hprovider : db.provider.find? (·.id = row.providerId) = some provider)
    (horigin : provider.apiBaseUrl.getD "" ≠ "") (hsecret : openSecret decrypt row = .ok secret) :
    materialOf decrypt db row =
      .ok ⟨row.id, provider.plugin, provider.apiBaseUrl.getD "", secret⟩ := by
  simp only [materialOf, hprovider, hsecret, if_neg horigin]
  rfl

/-- What the bindings have brought so far. -/
structure Delivering (decrypt : String → String → Option String) (db : Tables) (tenantId : String)
    (materials : OrderedMap String CredentialMaterialEntry)
    (descriptors : List CredentialBindingDescriptor) : Prop where
  backed : ∀ descriptor ∈ descriptors, descriptor.credentialId ∈ materials.keys
  keyed : Shadowing.Keyed (·.credentialId) materials
  owned : ∀ credentialId material, materials.get credentialId = some material →
    Owned decrypt db tenantId material

/-- **What is delivered for the bindings** is what their descriptors refer to. -/
lemma delivering_of_deliverBindings (hkeyed : db.WellKeyed) {bindings : List CredentialBinding}
    {materials : OrderedMap String CredentialMaterialEntry}
    {descriptors : List CredentialBindingDescriptor} {delivery : Option CredentialDelivery}
    (hsofar : Delivering decrypt db tenantId materials descriptors)
    (h : deliverBindings decrypt db tenantId bindings materials descriptors = .ok (.ok delivery)) :
    ∃ materials' descriptors', Delivering decrypt db tenantId materials' descriptors' ∧
      delivery = if descriptors' = [] then none else some ⟨descriptors', materials'.values⟩ := by
  induction bindings generalizing materials descriptors with
  | nil =>
    refine ⟨materials, descriptors, hsofar, ?_⟩
    exact (BuildCredentialDeliveryResult.ok.inj (Except.ok.inj h)).symm
  | cons binding bindings ih =>
    rw [deliverBindings] at h
    split at h
    · cases pure_eq_ok.1 h
    · cases h
    · cases pure_eq_ok.1 h
    · next credential provider hresolved =>
      obtain ⟨chain, hchain, husable, -, hprovider⟩ := usable_of_requirement hkeyed hresolved
      dsimp only at h
      split_ifs at h with horigin hhas
      · cases pure_eq_ok.1 h
      · refine ih ⟨?_, hsofar.keyed, hsofar.owned⟩ h
        intro descriptor hmem
        rcases List.mem_append.mp hmem with hmem | hmem
        · exact hsofar.backed descriptor hmem
        · obtain rfl := List.mem_singleton.mp hmem
          exact OrderedMap.has_iff.1 hhas
      · obtain ⟨secret, hsecret, h⟩ := bind_eq_ok.1 h
        refine ih ⟨?_, ?_, ?_⟩ h
        · intro descriptor hmem
          rw [OrderedMap.mem_keys]
          rcases List.mem_append.mp hmem with hmem | hmem
          · obtain ⟨held, hheld⟩ := OrderedMap.mem_keys.1 (hsofar.backed descriptor hmem)
            rw [OrderedMap.get_set]
            split_ifs
            · exact ⟨_, rfl⟩
            · exact ⟨held, hheld⟩
          · obtain rfl := List.mem_singleton.mp hmem
            exact ⟨_, OrderedMap.get_set_self⟩
        · exact hsofar.keyed.set rfl
        · intro credentialId material hget
          rw [OrderedMap.get_set] at hget
          split_ifs at hget
          · obtain rfl := Option.some.inj hget
            exact ⟨credential, chain, hchain, husable, materialOf_eq hprovider horigin hsecret⟩
          · exact hsofar.owned credentialId material hget

lemma held_of_delivering {materials : OrderedMap String CredentialMaterialEntry}
    {descriptors : List CredentialBindingDescriptor} {held : CredentialDelivery}
    (h : Delivering decrypt db tenantId materials descriptors)
    (hheld : held = (if descriptors = [] then none
      else some (⟨descriptors, materials.values⟩ : CredentialDelivery)).getD ⟨[], []⟩) :
    held.Backed ∧ ∀ material ∈ held.materials, Owned decrypt db tenantId material := by
  split_ifs at hheld with hnil
  · subst hheld
    exact ⟨nofun, nofun⟩
  · subst hheld
    constructor
    · intro descriptor hmem
      obtain ⟨material, hmaterial⟩ := OrderedMap.mem_keys.1 (h.backed descriptor hmem)
      exact ⟨material, OrderedMap.mem_values.2 ⟨_, hmaterial⟩, h.keyed _ _ hmaterial⟩
    · intro material hmem
      obtain ⟨k, hk⟩ := OrderedMap.mem_values.1 hmem
      exact h.owned k material hk

/-- The material of a source is that of a credential of the hierarchy. -/
lemma owned_of_inferenceMaterial {credentialId : String}
    (h : inferenceMaterial decrypt db tenantId credentialId = .ok (some material)) :
    material.credentialId = credentialId ∧ Owned decrypt db tenantId material := by
  obtain ⟨found, hfound, h⟩ := bind_eq_ok.1 h
  cases found with
  | none => cases h
  | some row =>
    obtain ⟨material', hmaterial, h⟩ := bind_eq_ok.1 h
    obtain rfl := Option.some.inj (pure_eq_ok.1 h)
    obtain ⟨hresolved, howner⟩ := resolveTenantOwnedCredentialById_eq_ok.1 hfound
    obtain ⟨hfind, chain, hchain, hmem⟩ := resolveCredentialById_eq_ok.1 hresolved
    have hid : material'.credentialId = credentialId := by
      rw [credentialId_materialOf hmaterial]
      simpa using List.find?_some hfind
    exact ⟨hid, row, chain, hchain, ⟨hid ▸ hfind, hmem, howner⟩, hmaterial⟩

/-- **A deployment starts** with the material of every credential that is bound, of each once, and
with no other than its tenant or one above it owns. -/
lemma delivered_of_deployDelivery (hkeyed : db.WellKeyed) {bindings : List CredentialBinding}
    {inferenceCredentialIds : List String} {delivery : CredentialDelivery}
    (h : deployDelivery decrypt db tenantId bindings inferenceCredentialIds = .ok (some delivery)) :
    delivery.Backed ∧ (delivery.materials.map (·.credentialId)).Nodup ∧
      ∀ material ∈ delivery.materials, Owned decrypt db tenantId material := by
  rw [deployDelivery] at h
  obtain ⟨result, hresult, h⟩ := bind_eq_ok.1 h
  cases result with
  | failed reason => cases h
  | ok credentials =>
    obtain ⟨materials, descriptors, hdelivering, rfl⟩ := delivering_of_deliverBindings hkeyed
      ⟨by simp, Shadowing.keyed_empty, nofun⟩ hresult
    simp only [pure_bind] at h
    obtain ⟨inferenceMaterials, hinference, h⟩ := bind_eq_ok.1 h
    obtain ⟨hbacked, howned⟩ := held_of_delivering hdelivering rfl
    generalize (if descriptors = [] then none
      else some (⟨descriptors, materials.values⟩ : CredentialDelivery)).getD ⟨[], []⟩ = held
      at h hbacked howned
    have hkeys : Shadowing.Keyed (·.credentialId) (Shadowing.claims (·.credentialId)
        (Shadowing.puts (·.credentialId) .empty held.materials) inferenceMaterials) :=
      Shadowing.keyed_empty.puts.claims
    split_ifs at h
    · cases pure_eq_ok.1 h
    obtain rfl := Option.some.inj (pure_eq_ok.1 h)
    refine ⟨?_, ?_, ?_⟩
    · intro binding hbinding
      obtain ⟨material, hmaterial, hid⟩ := hbacked binding hbinding
      have hkey : material.credentialId ∈ (Shadowing.claims (·.credentialId)
          (Shadowing.puts (·.credentialId) .empty held.materials) inferenceMaterials).keys :=
        Shadowing.mem_keys_claims_puts hmaterial
      obtain ⟨held', hheld'⟩ := OrderedMap.mem_keys.1 hkey
      exact ⟨held', OrderedMap.mem_values.2 ⟨_, hheld'⟩, hid ▸ hkeys _ _ hheld'⟩
    · rw [hkeys.keys_eq]
      exact OrderedMap.nodup _
    · intro material hmem
      obtain ⟨k, hk⟩ := OrderedMap.mem_values.1 hmem
      rcases Shadowing.mem_of_get_claims hk with hput | hinferred
      · rcases Shadowing.mem_of_get_puts hput with hheld | hempty
        · exact howned material hheld
        · cases hempty
      · obtain ⟨credentialId, -, hcurrent⟩ := ((gather_eq_ok
          (fun _ _ h => (owned_of_inferenceMaterial h).1) hinference).2.1 material).mp hinferred
        exact (owned_of_inferenceMaterial hcurrent).2

def teamDelivery : CredentialDelivery := ⟨[⟨"payments", "key", "tool:billing"⟩], [acmeKey]⟩

end Workbench.Catalog
