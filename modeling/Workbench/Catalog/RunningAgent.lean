import Workbench.Catalog.CredentialPush
import Workbench.Catalog.SourceRegistry

/-!
The process of a running instance, which takes what the hub sends to it.

A list of sources is checked before anything is done with it: the child would not survive a list in
which an id stands twice or in which the default is not the first. Every list that the hub sends
passes the check.
-/

namespace Workbench.Catalog

open Workbench.Lib Workbench.Lib.Fallible

/-- The check that a list of sources with its default has to pass. -/
def sourcesUpdatedData (sources : List InferenceSource) (defaultSource : String) : Bool :=
  sources ≠ [] && defaultSource ≠ "" && decide (sources.map (·.id)).Nodup &&
    sources.head?.map (·.id) = some defaultSource

/-- What a running instance holds: the sources that its agent is built with, the sources of the
agent that is built, and the credentials. -/
structure Sidecar where
  sources : Option (List InferenceSource)
  agent : Option SourceRegistry
  cell : Option CredentialDelivery
  deriving DecidableEq, Repr

/-- The agent that is built takes the sources first; where it refuses, nothing has changed. -/
def Sidecar.takeSources (sidecar : Sidecar) (sources : List InferenceSource)
    (defaultSource : String) : Sidecar :=
  match sidecar.agent with
  | none => { sidecar with sources := some sources }
  | some registry =>
    match registry.setSources sources defaultSource with
    | .ok registry => { sidecar with sources := some sources, agent := some registry }
    | .error _ => sidecar

def Sidecar.receive (sidecar : Sidecar) : Push → Sidecar
  | .credentials _ frame =>
    { sidecar with cell := some (mergeCredentialDelivery sidecar.cell frame.delivery frame.revoke) }
  | .sources _ sources defaultSource =>
    if sourcesUpdatedData sources defaultSource then sidecar.takeSources sources defaultSource
    else sidecar

/-! ### What the hub sends is accepted -/

variable {decrypt : String → String → Option String} {db : Tables} {tenantId : String}
  {chain : List String} {visible : List ResolvedOffering}
  {invokers : OrderedMap String ProviderPreference} {requirement : ModelRequirement}
  {requirements : List ModelRequirement} {sources : List InferenceSource}
  {materials : List CredentialMaterialEntry} {built : BuiltSource} {served : List BuiltSource}

/-- A source for a requirement is an offering of the model that is required. -/
lemma Serves.offering (hchain : getAncestorChain db tenantId = .ok chain)
    (h : Serves decrypt db tenantId visible invokers requirement served) (hbuilt : built ∈ served) :
    ∃ resolved ∈ visible, resolved.model.canonicalName = requirement.model ∧
      built.source.id = resolved.offering.id := by
  obtain ⟨resolved, hresolved, hbuild⟩ := h.candidate hbuilt
  obtain ⟨hmem, heligible⟩ := List.mem_filter.mp (candidatesFor_perm.subset hresolved)
  obtain ⟨row, hrow⟩ := builtFrom_of_buildSource hchain hbuild
  refine ⟨resolved, hmem, ?_, by rw [hrow.source]⟩
  simp only [eligible, Bool.and_eq_true, decide_eq_true_eq] at heligible
  exact heligible.1.1.1

/-- The sources that are built of a list of offerings have the ids of some of them. -/
lemma sublist_ids (hchain : getAncestorChain db tenantId = .ok chain)
    {candidates : List ResolvedOffering} {results : List (Except SourceSkip BuiltSource)}
    (h : List.Forall₂ (fun resolved result => buildSource decrypt db tenantId resolved = .ok result)
      candidates results) :
    ((results.filterMap Except.toOption).map (·.source.id)).Sublist
      (candidates.map (·.offering.id)) := by
  induction h with
  | nil => exact List.Sublist.slnil
  | @cons resolved result candidates results hbuild _ ih =>
    cases result with
    | error skip => exact ih.cons _
    | ok built =>
      obtain ⟨row, hrow⟩ := builtFrom_of_buildSource hchain hbuild
      have hid : built.source.id = resolved.offering.id := by rw [hrow.source]
      have hbuilt : (.ok built :: results).filterMap Except.toOption =
          built :: results.filterMap Except.toOption := rfl
      rw [hbuilt, List.map_cons, List.map_cons, hid]
      exact ih.cons_cons _

/-- No offering is a source for two requirements. -/
lemma nodup_served (hchain : getAncestorChain db tenantId = .ok chain)
    (hvisible : (visible.map (·.offering.id)).Nodup) {served : List (List BuiltSource)}
    (hmodels : (requirements.map (·.model)).Nodup)
    (h : List.Forall₂ (Serves decrypt db tenantId visible invokers) requirements served) :
    (served.flatten.map (·.source.id)).Nodup := by
  induction h with
  | nil => exact List.nodup_nil
  | @cons requirement first requirements served hfirst hrest ih =>
    rw [List.map_cons, List.nodup_cons] at hmodels
    rw [List.flatten_cons, List.map_append, List.nodup_append]
    refine ⟨?_, ih hmodels.2, ?_⟩
    · obtain ⟨-, results, htried, rfl⟩ := hfirst
      have hcandidates : (candidatesFor visible requirement
          (invokers.get requirement.model)).map (·.offering.id) |>.Nodup := by
        rw [(candidatesFor_perm.map _).nodup_iff]
        exact hvisible.sublist (List.filter_sublist.map _)
      exact hcandidates.sublist (sublist_ids hchain htried)
    · intro id hid id' hid' hsame
      subst hsame
      obtain ⟨built, hbuilt, rfl⟩ := List.mem_map.mp hid
      obtain ⟨built', hbuilt', hids⟩ := List.mem_map.mp hid'
      obtain ⟨others, hothers, hmem⟩ := List.mem_flatten.mp hbuilt'
      obtain ⟨requirement', hrequirement', hserves⟩ := exists_of_forall₂ hrest hothers
      obtain ⟨resolved, hresolved, hmodel, hof⟩ := hfirst.offering hchain hbuilt
      obtain ⟨resolved', hresolved', hmodel', hof'⟩ := hserves.offering hchain hmem
      have hsame : resolved = resolved' :=
        List.inj_on_of_nodup_map hvisible hresolved hresolved' (by rw [← hof, ← hof', hids])
      subst hsame
      exact hmodels.1 (hmodel ▸ hmodel' ▸ List.mem_map_of_mem hrequirement')

/-- The requirements of a definition name no model twice. -/
lemma nodup_of_assertRequirements {definition : WorkflowDefinition}
    (h : assertRequirements definition = .ok requirements) :
    (requirements.map (·.model)).Nodup := by
  unfold assertRequirements at h
  split at h
  · rw [← Except.ok.inj h]
    exact List.nodup_nil
  · split_ifs at h with hvalid
    rw [← Except.ok.inj h]
    exact hvalid.1

/-- **The hub sends no list that is refused.** -/
theorem accepted_of_resolved (hkeyed : db.WellKeyed) {definitionId : String}
    {modelPreferences : Option (List InvokerModelPreference)} {head : InferenceSource}
    {rest : List InferenceSource}
    (h : resolveInstanceModelSources decrypt db tenantId definitionId modelPreferences =
      .ok (.ok (head :: rest) materials)) : sourcesUpdatedData (head :: rest) head.id := by
  unfold resolveInstanceModelSources at h
  split at h
  · obtain ⟨requirements, hrequirements, h⟩ := bind_eq_ok.1 h
    obtain ⟨visible, served, hvisible, hserved, hsources, -⟩ := served_of_resolveModelSources h
    obtain ⟨chain, hchain⟩ := chain_of_listVisibleOfferings hvisible
    have hnodup := nodup_served hchain (nodup_offeringIds hchain hkeyed hvisible)
      (nodup_of_assertRequirements hrequirements) hserved
    have hids : (head :: rest).map (·.id) = served.flatten.map (·.source.id) := by
      rw [hsources, List.map_map]
      rfl
    have hhead : head ∈ served.flatten.map (·.source) := hsources ▸ List.mem_cons_self
    obtain ⟨built, hbuilt, rfl⟩ := List.mem_map.mp hhead
    obtain ⟨resolved, hresolved, hbuild⟩ := mem_flatten_served hserved hbuilt
    obtain ⟨row, hrow⟩ := builtFrom_of_buildSource hchain hbuild
    have hoffering := ((mem_listVisibleOfferings hchain hvisible).mp hresolved).offering
    have hname : built.source.id ≠ "" := by
      rw [hrow.source]
      exact hkeyed.offeringIds _ (mem_of_nearest hoffering).1
    rw [sourcesUpdatedData, hids, decide_eq_true hnodup]
    simp [hname]
  · cases pure_eq_ok.1 h

/-- A list that is accepted is what the next cycle goes through, in its order. -/
lemma takeSources_of_accepted {sidecar : Sidecar} {head : InferenceSource}
    {rest : List InferenceSource} (h : sourcesUpdatedData (head :: rest) head.id) :
    (sidecar.takeSources (head :: rest) head.id).sources = some (head :: rest) ∧
      (sidecar.takeSources (head :: rest) head.id).cell = sidecar.cell ∧
      ∀ registry, (sidecar.takeSources (head :: rest) head.id).agent = some registry →
        registry.chain = head :: rest := by
  have hnodup : ((head :: rest).map (·.id)).Nodup := by
    simp only [sourcesUpdatedData, Bool.and_eq_true, decide_eq_true_eq] at h
    exact h.1.2
  obtain ⟨made, hmade, hchain⟩ := SourceRegistry.create_head hnodup
  unfold Sidecar.takeSources
  cases hagent : sidecar.agent with
  | none => exact ⟨rfl, rfl, nofun⟩
  | some registry =>
    have hset : registry.setSources (head :: rest) head.id = .ok made := hmade
    simp only [hset]
    refine ⟨trivial, trivial, fun registry' hregistry => ?_⟩
    rw [← Option.some.inj hregistry, hchain]

end Workbench.Catalog
