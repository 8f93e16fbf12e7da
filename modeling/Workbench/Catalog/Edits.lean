import Workbench.Catalog.CredentialPush
import Mathlib.Logic.Function.Basic

/-!
An edit of one tenant's rows, and the running instances that it concerns.

What a tenant resolves depends on the rows of its chain only, so an edit changes nothing outside of
the subtree of the edited tenant. The hub sends to the instances of that subtree.
-/

namespace Workbench.Catalog

open Workbench.Lib Workbench.Lib.Fallible

variable {decrypt : String → String → Option String} {db db' : Tables} {edited tenantId : String}
  {chain : List String}

/-- All rows but those of the edited tenant are as they were, and so are the tenants, the
definitions and the runs. -/
structure EditOf (edited : String) (db db' : Tables) : Prop where
  tenant : db'.tenant = db.tenant
  definitions : db'.workflowDefinition = db.workflowDefinition
  runs : db'.workflowRun = db.workflowRun
  model : db'.model.filter (·.tenantId ≠ edited) = db.model.filter (·.tenantId ≠ edited)
  modelProvider : db'.modelProvider.filter (·.tenantId ≠ edited) =
    db.modelProvider.filter (·.tenantId ≠ edited)
  modelOffering : db'.modelOffering.filter (·.tenantId ≠ edited) =
    db.modelOffering.filter (·.tenantId ≠ edited)
  credential : db'.credential.filter (·.tenantId ≠ edited) =
    db.credential.filter (·.tenantId ≠ edited)

lemma getAncestorChain_congr (h : db'.tenant = db.tenant) :
    getAncestorChain db' tenantId = getAncestorChain db tenantId := by
  cases db
  cases db'
  cases h
  rfl

lemma getDescendantTenants_congr (h : db'.tenant = db.tenant) :
    getDescendantTenants db' tenantId = getDescendantTenants db tenantId := by
  cases db
  cases db'
  cases h
  rfl

section

variable {ρ : Type} {tenantOf : ρ → String} {table table' : List ρ}

lemma filter_tenant_eq {tid : String} (hne : tid ≠ edited)
    (h : table'.filter (tenantOf · ≠ edited) = table.filter (tenantOf · ≠ edited)) :
    table'.filter (tenantOf · = tid) = table.filter (tenantOf · = tid) := by
  have hof : ∀ rows : List ρ, rows.filter (tenantOf · = tid) =
      (rows.filter (tenantOf · ≠ edited)).filter (tenantOf · = tid) := by
    intro rows
    rw [List.filter_filter]
    refine List.filter_congr fun row _ => ?_
    by_cases htid : tenantOf row = tid <;> simp [htid, hne]
  rw [hof table', hof table, h]

lemma layered_edit (hout : edited ∉ chain)
    (h : table'.filter (tenantOf · ≠ edited) = table.filter (tenantOf · ≠ edited)) :
    layered tenantOf table' chain = layered tenantOf table chain :=
  List.flatMap_congr fun tid htid =>
    filter_tenant_eq (fun heq : tid = edited => hout (heq ▸ htid)) h

lemma layeredFrom_edit (hout : edited ∉ chain)
    (h : table'.filter (tenantOf · ≠ edited) = table.filter (tenantOf · ≠ edited)) :
    layeredFrom tenantOf table' tenantId chain = layeredFrom tenantOf table tenantId chain := by
  rw [layeredFrom_eq_map, layeredFrom_eq_map, layered_edit hout h]

end

section

variable (hedit : EditOf edited db db') (hchain : getAncestorChain db tenantId = .ok chain)
  (hout : edited ∉ chain)

include hedit hchain hout

/-- **A tenant sees what it saw**, where the edited tenant is not above it. -/
lemma listVisibleOfferings_edit :
    listVisibleOfferings db' tenantId = listVisibleOfferings db tenantId := by
  have hchain' : getAncestorChain db' tenantId = .ok chain :=
    (getAncestorChain_congr hedit.tenant).trans hchain
  have hidentity : identityOf db' chain = identityOf db chain := by
    funext row
    simp only [identityOf, modelNameById, providerNameById, layered_edit hout hedit.model,
      layered_edit hout hedit.modelProvider]
  simp only [listVisibleOfferings, listVisibleModels, listVisibleProviders, hchain, hchain',
    hidentity, layeredFrom_edit hout hedit.model, layeredFrom_edit hout hedit.modelProvider,
    layeredFrom_edit hout hedit.modelOffering, bind, Except.bind, pure, Except.pure]

omit hedit in
/-- Only the credentials of other tenants than the edited one can be resolved. -/
lemma resolveCredentialById_outside (hkeyed : db.WellKeyed) {credentialId : String} :
    resolveCredentialById db tenantId credentialId =
      .ok (((db.credential.filter (·.tenantId ≠ edited)).find? (·.id = credentialId)).filter
        (·.tenantId ∈ chain)) := by
  unfold resolveCredentialById
  cases hfind : db.credential.find? (·.id = credentialId) with
  | none =>
    have hnone : (db.credential.filter (·.tenantId ≠ edited)).find? (·.id = credentialId) =
        none := by
      rw [List.find?_eq_none] at hfind ⊢
      exact fun row hrow => hfind row (List.mem_filter.mp hrow).1
    rw [hnone]
    rfl
  | some row =>
    have hid : row.id = credentialId := by simpa using List.find?_some hfind
    have hrow := List.mem_of_find?_eq_some hfind
    simp only [hchain, bind, Except.bind, pure, Except.pure, Except.ok.injEq]
    by_cases htenant : row.tenantId = edited
    · have hnone : (db.credential.filter (·.tenantId ≠ edited)).find? (·.id = credentialId) =
          none := by
        rw [List.find?_eq_none]
        intro other hother hsame
        obtain ⟨hmem, hne⟩ := List.mem_filter.mp hother
        have hother' := Shadowing.find?_of_nodup hkeyed.credential hmem
        rw [of_decide_eq_true hsame, hfind] at hother'
        exact of_decide_eq_true hne (Option.some.inj hother' ▸ htenant)
      rw [hnone, if_neg (htenant ▸ hout)]
      rfl
    · have hkept : row ∈ db.credential.filter (·.tenantId ≠ edited) :=
        List.mem_filter.mpr ⟨hrow, decide_eq_true htenant⟩
      have hnodup : ((db.credential.filter (·.tenantId ≠ edited)).map (·.id)).Nodup :=
        hkeyed.credential.sublist (List.filter_sublist.map _)
      rw [← hid, Shadowing.find?_of_nodup hnodup hkept]
      by_cases hmem : row.tenantId ∈ chain <;> simp [hmem, Option.filter]

lemma buildSource_edit (hkeyed : db.WellKeyed) (hkeyed' : db'.WellKeyed) :
    buildSource decrypt db' tenantId = buildSource decrypt db tenantId := by
  have hchain' : getAncestorChain db' tenantId = .ok chain :=
    (getAncestorChain_congr hedit.tenant).trans hchain
  funext resolved
  simp only [buildSource, resolveCredentialById_outside hchain hout hkeyed,
    resolveCredentialById_outside hchain' hout hkeyed', hedit.credential]

end

/-- The sources of an instance depend on what its tenant sees and on what an offering gives it. -/
lemma resolveInstanceModelSources_congr (hdefinitions :
      db'.workflowDefinition = db.workflowDefinition)
    (hvisible : listVisibleOfferings db' tenantId = listVisibleOfferings db tenantId)
    (hbuild : ∀ visible, listVisibleOfferings db tenantId = .ok visible →
      buildSource decrypt db' tenantId = buildSource decrypt db tenantId)
    {definitionId : String} {modelPreferences : Option (List InvokerModelPreference)} :
    resolveInstanceModelSources decrypt db' tenantId definitionId modelPreferences =
      resolveInstanceModelSources decrypt db tenantId definitionId modelPreferences := by
  have hrequirements : ∀ visible, listVisibleOfferings db tenantId = .ok visible →
      ∀ requirements invokers sources materials,
        resolveRequirements decrypt db' tenantId visible invokers requirements sources materials =
          resolveRequirements decrypt db tenantId visible invokers requirements sources
            materials := by
    intro visible hok requirements invokers
    induction requirements with
    | nil => exact fun _ _ => rfl
    | cons requirement requirements ih =>
      intro sources materials
      simp only [resolveRequirements, hbuild visible hok, ih]
  have hsources : ∀ requirements invokers,
      resolveModelSources decrypt db' tenantId requirements invokers =
        resolveModelSources decrypt db tenantId requirements invokers := by
    intro requirements invokers
    cases hok : listVisibleOfferings db tenantId with
    | error fault => simp only [resolveModelSources, hvisible, hok, bind, Except.bind]
    | ok visible =>
      simp only [resolveModelSources, hvisible, hok, bind, Except.bind,
        hrequirements visible hok]
  simp only [resolveInstanceModelSources, hdefinitions, hsources]

/-- **An edit leaves what other tenants resolve**: only in the subtree of the edited tenant an
instance can be given other sources or other secrets. -/
lemma resolveInstanceModelSources_edit (hkeyed : db.WellKeyed) (hkeyed' : db'.WellKeyed)
    (hedit : EditOf edited db db') (hout : tenantId ∉ getDescendantTenants db edited)
    {definitionId : String} {modelPreferences : Option (List InvokerModelPreference)} :
    resolveInstanceModelSources decrypt db' tenantId definitionId modelPreferences =
      resolveInstanceModelSources decrypt db tenantId definitionId modelPreferences := by
  have habove : ∀ chain, getAncestorChain db tenantId = .ok chain → edited ∉ chain :=
    fun chain hchain hmem =>
      hout ((mem_getDescendantTenants hkeyed).mpr ((mem_chain hchain).mp hmem))
  refine resolveInstanceModelSources_congr hedit.definitions ?_ fun visible hvisible => ?_
  · cases hchain : getAncestorChain db tenantId with
    | error fault =>
      have hchain' : getAncestorChain db' tenantId = .error fault :=
        (getAncestorChain_congr hedit.tenant).trans hchain
      simp only [listVisibleOfferings, hchain, hchain', bind, Except.bind]
    | ok chain => exact listVisibleOfferings_edit hedit hchain (habove chain hchain)
  · obtain ⟨chain, hchain⟩ := chain_of_listVisibleOfferings hvisible
    exact buildSource_edit hedit hchain (habove chain hchain) hkeyed hkeyed'

end Workbench.Catalog
