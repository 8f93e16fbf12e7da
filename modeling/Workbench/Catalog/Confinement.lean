import Workbench.Catalog.RoutingOrder

/-!
What a launch is given stays within the hierarchy of its tenant.

Every source is an offering that the tenant sees, and every secret that is delivered is one of the
tenant or of a tenant above it. A launch that is recovered from the ids of its offerings has the
sources that it had.
-/

namespace Workbench.Catalog

open Workbench.Lib Workbench.Lib.Fallible

variable {decrypt : String → String → Option String} {db : Tables} {tenantId credentialId : String}
  {chain : List String} {resolved : ResolvedOffering} {built : BuiltSource}

/-- A credential that a tenant of the chain owns, and no principal. -/
def Usable (db : Tables) (chain : List String) (credentialId : String) (row : Credential) : Prop :=
  db.credential.find? (·.id = credentialId) = some row ∧ row.tenantId ∈ chain ∧
    row.principalId = none

/-- A source and its material are those of an offering and of a credential that may be used. -/
structure BuiltFrom (decrypt : String → String → Option String) (db : Tables) (chain : List String)
    (resolved : ResolvedOffering) (built : BuiltSource) (row : Credential) : Prop where
  usable : Usable db chain built.source.credentialId row
  opened : decrypt row.secret (credentialAad row.id "secret") = some built.material.secret
  source : built.source = ⟨resolved.offering.id, resolved.provider.plugin,
    resolved.provider.baseURL, built.source.credentialId, resolved.model.canonicalName,
    resolved.offering.capabilities, resolved.offering.quirks⟩
  named : resolved.provider.credentialId = some built.source.credentialId
  material : built.material.credentialId = built.source.credentialId ∧
    built.material.providerKey = resolved.provider.plugin ∧
    built.material.origin = resolved.provider.baseURL

lemma parseModelOfferingRow_eq_ok {row parsed : ModelOffering}
    (h : parseModelOfferingRow row = .ok parsed) : parsed = row := by
  unfold parseModelOfferingRow at h
  split_ifs at h
  exact (Except.ok.inj h).symm

lemma openSecret_eq_ok {row : Credential} {secret : String}
    (h : openSecret decrypt row = .ok secret) :
    decrypt row.secret (credentialAad row.id "secret") = some secret := by
  unfold openSecret at h
  split at h
  · next opened hopened => rw [hopened, Except.ok.inj h]
  · cases h

/-- **A source is built** from a credential of the hierarchy. -/
lemma builtFrom_of_buildSource (hchain : getAncestorChain db tenantId = .ok chain)
    (h : buildSource decrypt db tenantId resolved = .ok (.ok built)) :
    ∃ row, BuiltFrom decrypt db chain resolved built row := by
  unfold buildSource at h
  cases hcredential : resolved.provider.credentialId with
  | none =>
    simp only [hcredential] at h
    split_ifs at h <;> cases pure_eq_ok.1 h
  | some credentialId =>
    simp only [hcredential] at h
    obtain ⟨found, hfound, h⟩ := bind_eq_ok.1 h
    cases found with
    | none => cases pure_eq_ok.1 h
    | some row =>
      dsimp only at h
      split_ifs at h with howner
      · cases pure_eq_ok.1 h
      obtain ⟨secret, hsecret, h⟩ := bind_eq_ok.1 h
      obtain ⟨parsed, hparsed, h⟩ := bind_eq_ok.1 h
      obtain rfl := parseModelOfferingRow_eq_ok hparsed
      obtain rfl := Except.ok.inj (pure_eq_ok.1 h)
      obtain ⟨hfind, chain', hchain', hmem⟩ := resolveCredentialById_eq_ok.1 hfound
      obtain rfl := Except.ok.inj (hchain.symm.trans hchain')
      exact ⟨row, ⟨hfind, hmem, by simpa using howner⟩, openSecret_eq_ok hsecret, rfl, hcredential,
        rfl, rfl, rfl⟩

/-! ### What the launch is given -/

variable {visible : List ResolvedOffering} {invokers : OrderedMap String ProviderPreference}
  {requirement : ModelRequirement} {requirements : List ModelRequirement}
  {sources : List InferenceSource} {materials : List CredentialMaterialEntry}

/-- The sources for a requirement: of the offerings that are tried, those that give one. -/
structure Serves (decrypt : String → String → Option String) (db : Tables) (tenantId : String)
    (visible : List ResolvedOffering) (invokers : OrderedMap String ProviderPreference)
    (requirement : ModelRequirement) (served : List BuiltSource) : Prop where
  nonempty : served ≠ []
  tried : ∃ results, List.Forall₂
    (fun resolved result => buildSource decrypt db tenantId resolved = .ok result)
    (candidatesFor visible requirement (invokers.get requirement.model)) results ∧
    served = results.filterMap Except.toOption

lemma Serves.candidate {served : List BuiltSource}
    (h : Serves decrypt db tenantId visible invokers requirement served) (hbuilt : built ∈ served) :
    ∃ resolved ∈ candidatesFor visible requirement (invokers.get requirement.model),
      buildSource decrypt db tenantId resolved = .ok (.ok built) := by
  obtain ⟨-, results, htried, rfl⟩ := h
  obtain ⟨result, hresult, hok⟩ := List.mem_filterMap.mp hbuilt
  obtain rfl : result = .ok built := by
    cases result with
    | ok built' => exact congrArg _ (Option.some.inj hok)
    | error => cases hok
  obtain ⟨resolved, hresolved, hbuild⟩ := exists_of_forall₂ htried hresult
  exact ⟨resolved, hresolved, hbuild⟩

lemma Serves.mem {served : List BuiltSource}
    (h : Serves decrypt db tenantId visible invokers requirement served) (hbuilt : built ∈ served) :
    ∃ resolved ∈ visible, buildSource decrypt db tenantId resolved = .ok (.ok built) := by
  obtain ⟨resolved, hresolved, hbuild⟩ := h.candidate hbuilt
  exact ⟨resolved, mem_candidatesFor hresolved, hbuild⟩

/-- **The sources of a launch** are those for each requirement in turn, and a material goes with
every credential of them. -/
theorem served_of_resolveRequirements (before : List BuiltSource)
    (h : resolveRequirements decrypt db tenantId visible invokers requirements
      (before.map (·.source))
      (Shadowing.claims (·.credentialId) .empty (before.map (·.material))) =
        .ok (.ok sources materials)) :
    ∃ served, List.Forall₂ (Serves decrypt db tenantId visible invokers) requirements served ∧
      sources = (before ++ served.flatten).map (·.source) ∧
      materials = (Shadowing.claims (·.credentialId) .empty
        ((before ++ served.flatten).map (·.material))).values := by
  induction requirements generalizing before with
  | nil =>
    obtain ⟨rfl, rfl⟩ := CatalogSourceResolution.ok.inj (Except.ok.inj h)
    exact ⟨[], .nil, by simp, by simp⟩
  | cons requirement requirements ih =>
    rw [resolveRequirements, bind_eq_ok] at h
    obtain ⟨results, hresults, h⟩ := h
    dsimp only at h
    split_ifs at h with hnone
    · cases pure_eq_ok.1 h
    have hclaims : Shadowing.claims (·.credentialId)
        (Shadowing.claims (·.credentialId) .empty (before.map (·.material)))
        ((results.filterMap Except.toOption).map (·.material)) =
        Shadowing.claims (·.credentialId) .empty
          ((before ++ results.filterMap Except.toOption).map (·.material)) := by
      rw [List.map_append, Shadowing.claims_append]
    rw [hclaims, ← List.map_append] at h
    obtain ⟨served, hserved, hsources, hmaterials⟩ := ih _ h
    refine ⟨results.filterMap Except.toOption :: served,
      .cons ⟨hnone, results, ?_, rfl⟩ hserved, ?_, ?_⟩
    · exact forall₂_of_mapM hresults
    · rw [hsources, List.flatten_cons, List.append_assoc]
    · rw [hmaterials, List.flatten_cons, List.append_assoc]

lemma chain_of_listVisibleOfferings (h : listVisibleOfferings db tenantId = .ok visible) :
    ∃ chain, getAncestorChain db tenantId = .ok chain := by
  rw [listVisibleOfferings, bind_eq_ok] at h
  obtain ⟨chain, hchain, -⟩ := h
  exact ⟨chain, hchain⟩

lemma served_of_resolveModelSources
    (h : resolveModelSources decrypt db tenantId requirements invokers =
      .ok (.ok sources materials)) :
    ∃ visible served, listVisibleOfferings db tenantId = .ok visible ∧
      List.Forall₂ (Serves decrypt db tenantId visible invokers) requirements served ∧
      sources = served.flatten.map (·.source) ∧
      materials = (Shadowing.claims (·.credentialId) .empty
        (served.flatten.map (·.material))).values := by
  rw [resolveModelSources] at h
  split_ifs at h
  · cases pure_eq_ok.1 h
  obtain ⟨visible, hvisible, h⟩ := bind_eq_ok.1 h
  obtain ⟨served, hserved, hsources, hmaterials⟩ :=
    served_of_resolveRequirements [] h
  exact ⟨visible, served, hvisible, hserved, hsources, hmaterials⟩

lemma mem_flatten_served {served : List (List BuiltSource)}
    (hserved : List.Forall₂ (Serves decrypt db tenantId visible invokers) requirements served)
    (hbuilt : built ∈ served.flatten) :
    ∃ resolved ∈ visible, buildSource decrypt db tenantId resolved = .ok (.ok built) := by
  obtain ⟨chain, hchain, hmem⟩ := List.mem_flatten.mp hbuilt
  obtain ⟨_, -, hserves⟩ := exists_of_forall₂ hserved hchain
  exact hserves.mem hmem

/-- What the sources are built from. -/
lemma built_of_flatten {served : List (List BuiltSource)}
    (hchain : getAncestorChain db tenantId = .ok chain)
    (hserved : List.Forall₂ (Serves decrypt db tenantId visible invokers) requirements served)
    (hbuilt : built ∈ served.flatten) :
    ∃ resolved row, resolved ∈ visible ∧ BuiltFrom decrypt db chain resolved built row := by
  obtain ⟨resolved, hresolved, hbuild⟩ := mem_flatten_served hserved hbuilt
  obtain ⟨row, hrow⟩ := builtFrom_of_buildSource hchain hbuild
  exact ⟨resolved, row, hresolved, hrow⟩

/-- Every secret is one of the hierarchy. -/
lemma usable_of_material {material : CredentialMaterialEntry}
    (h : resolveModelSources decrypt db tenantId requirements invokers =
      .ok (.ok sources materials)) (hchain : getAncestorChain db tenantId = .ok chain)
    (hmaterial : material ∈ materials) :
    ∃ row, Usable db chain material.credentialId row ∧
      decrypt row.secret (credentialAad row.id "secret") = some material.secret := by
  obtain ⟨visible, served, hvisible, hserved, -, rfl⟩ := served_of_resolveModelSources h
  have hfirst := List.mem_of_find?_eq_some (Shadowing.mem_claims.1 hmaterial)
  obtain ⟨built, hmem, rfl⟩ := List.mem_map.mp hfirst
  obtain ⟨resolved, row, -, hrow⟩ := built_of_flatten hchain hserved hmem
  exact ⟨row, hrow.material.1 ▸ hrow.usable, hrow.opened⟩

/-- **No secret leaves the hierarchy**: a launch is given sources that its tenant sees, and the
secrets of credentials that its tenant or one above it owns, one secret for each credential that
a source refers to. -/
theorem resolveModelSources_confined
    (h : resolveModelSources decrypt db tenantId requirements invokers =
      .ok (.ok sources materials)) :
    ∃ chain, getAncestorChain db tenantId = .ok chain ∧
      (∀ source ∈ sources, ∃ resolved row, IsVisible db tenantId chain resolved ∧
        resolved.offering.id = source.id ∧
        resolved.provider.credentialId = some source.credentialId ∧
        Usable db chain source.credentialId row) ∧
      (∀ material ∈ materials, ∃ row, Usable db chain material.credentialId row ∧
        decrypt row.secret (credentialAad row.id "secret") = some material.secret) ∧
      (materials.map (·.credentialId)).Nodup ∧
      ∀ credentialId, credentialId ∈ materials.map (·.credentialId) ↔
        credentialId ∈ sources.map (·.credentialId) := by
  have hresolve := h
  obtain ⟨visible, served, hvisible, hserved, rfl, rfl⟩ := served_of_resolveModelSources h
  obtain ⟨chain, hchain⟩ := chain_of_listVisibleOfferings hvisible
  refine ⟨chain, hchain, ?_, fun material hmaterial => usable_of_material hresolve hchain hmaterial,
    Shadowing.nodup_claims, ?_⟩
  · intro source hsource
    obtain ⟨built, hmem, rfl⟩ := List.mem_map.mp hsource
    obtain ⟨resolved, row, hresolved, hrow⟩ := built_of_flatten hchain hserved hmem
    refine ⟨resolved, row, (mem_listVisibleOfferings hchain hvisible).mp hresolved, ?_, hrow.named,
      hrow.usable⟩
    rw [hrow.source]
  · intro credentialId
    have hsame : (served.flatten.map (·.material)).map (·.credentialId) =
        (served.flatten.map (·.source)).map (·.credentialId) := by
      rw [List.map_map, List.map_map]
      refine List.map_congr_left fun built hmem => ?_
      obtain ⟨resolved, row, -, hrow⟩ := built_of_flatten hchain hserved hmem
      exact hrow.material.1
    rw [← hsame, Shadowing.mem_keys_claims]

def largeSource : InferenceSource := ⟨"offering", "acme", "https://acme", "key", "large", [], none⟩

lemma resolve_company : resolveModelSources plainly company "team" [⟨"large", none, none⟩] .empty =
    .ok (.ok [largeSource] [acmeKey]) := by decide

theorem confined_company : ∃ chain, getAncestorChain company "team" = .ok chain ∧
    ∀ material ∈ [acmeKey], ∃ row, Usable company chain material.credentialId row ∧
      plainly row.secret (credentialAad row.id "secret") = some material.secret := by
  obtain ⟨chain, hchain, -, hmaterials, -⟩ := resolveModelSources_confined resolve_company
  exact ⟨chain, hchain, hmaterials⟩

/-! ### Recovery -/

/-- A chain is rebuilt, where each of its sources is built again from the offering with its id. -/
lemma sourcesOf_eq_ok {byId : OrderedMap String ResolvedOffering} (before : List InferenceSource)
    (h : ∀ source ∈ sources, ∃ resolved built, byId.get source.id = some resolved ∧
      buildSource decrypt db tenantId resolved = .ok (.ok built) ∧ built.source = source) :
    sourcesOf decrypt db tenantId byId (sources.map (·.id)) before =
      .ok (.ok (before ++ sources)) := by
  induction sources generalizing before with
  | nil => rw [List.append_nil]; rfl
  | cons source sources ih =>
    obtain ⟨resolved, built, hget, hbuild, rfl⟩ := h source List.mem_cons_self
    have hrest := ih (before ++ [built.source])
      fun other hother => h other (List.mem_cons_of_mem _ hother)
    rw [List.append_cons, ← hrest, List.map_cons, sourcesOf, hget]
    simp only [hbuild]
    rfl

/-- **A launch is recovered from the ids of its offerings**: it has the sources that it had, in the
order that it had them in. -/
theorem resolveSourcesByOfferingIds_of_resolveModelSources (hkeyed : db.WellKeyed)
    (h : resolveModelSources decrypt db tenantId requirements invokers =
      .ok (.ok sources materials)) :
    resolveSourcesByOfferingIds decrypt db tenantId (sources.map (·.id)) = .ok (.ok sources) := by
  obtain ⟨visible, served, hvisible, hserved, rfl, -⟩ := served_of_resolveModelSources h
  obtain ⟨chain, hchain⟩ := chain_of_listVisibleOfferings hvisible
  rw [resolveSourcesByOfferingIds, hvisible]
  refine sourcesOf_eq_ok [] ?_
  intro source hsource
  obtain ⟨built, hmem, rfl⟩ := List.mem_map.mp hsource
  obtain ⟨resolved, hresolved, hbuild⟩ := mem_flatten_served hserved hmem
  obtain ⟨row, hrow⟩ := builtFrom_of_buildSource hchain hbuild
  refine ⟨resolved, built, ?_, hbuild, rfl⟩
  rw [Shadowing.get_mapOf (nodup_offeringIds hchain hkeyed hvisible)]
  exact ⟨resolved, hresolved, by rw [hrow.source], rfl⟩

theorem recovered_company : resolveSourcesByOfferingIds plainly company "team" ["offering"] =
    .ok (.ok [largeSource]) :=
  resolveSourcesByOfferingIds_of_resolveModelSources wellKeyed_company resolve_company

end Workbench.Catalog
