import Workbench.Catalog.Tenants

/-!
What a tenant can see of the catalog.

Every tenant has rows of its own and inherits those of the tenants above it. The row that is
nearest to the tenant hides the others of its name, also where it is disabled.
-/

namespace Workbench.Catalog

open Workbench.Lib

variable {db : Tables} {tenantId : String}

/-- Where a row came from. -/
structure Origin where
  tenantId : String
  direct : Bool
  deriving DecidableEq, Repr

structure Visible (ρ : Type) where
  row : ρ
  origin : Origin
  deriving DecidableEq, Repr

structure ResolvedOffering where
  offering : ModelOffering
  model : Model
  provider : ModelProvider
  origin : Origin
  deriving DecidableEq, Repr

section

variable {ρ : Type} (tenantOf : ρ → String) (table : List ρ)

/-- The rows of the tenants of a chain, from the leaf to the root. -/
def layered (chain : List String) : List ρ :=
  chain.flatMap fun tid => table.filter (tenantOf · = tid)

/-- The rows of a chain, each with the tenant that it came from. -/
def layeredFrom (tenantId : String) (chain : List String) : List (Visible ρ) :=
  chain.flatMap fun tid =>
    (table.filter (tenantOf · = tid)).map fun row => ⟨row, tid, tid == tenantId⟩

end

def listVisibleModels (db : Tables) (tenantId : String) : Except Fault (List (Visible Model)) := do
  let chain ← getAncestorChain db tenantId
  let byKey := Shadowing.claims (fun entry : Visible Model => entry.row.canonicalName) .empty
    (layeredFrom Model.tenantId db.model tenantId chain)
  return byKey.values.filter (!·.row.disabled)

def listVisibleProviders (db : Tables) (tenantId : String) :
    Except Fault (List (Visible ModelProvider)) := do
  let chain ← getAncestorChain db tenantId
  let byKey := Shadowing.claims (fun entry : Visible ModelProvider => entry.row.name) .empty
    (layeredFrom ModelProvider.tenantId db.modelProvider tenantId chain)
  return byKey.values.filter (!·.row.disabled)

/-- The names of the models of the chain, by their ids. -/
def modelNameById (db : Tables) (chain : List String) : OrderedMap String String :=
  Shadowing.mapOf Model.id Model.canonicalName (layered Model.tenantId db.model chain)

def providerNameById (db : Tables) (chain : List String) : OrderedMap String String :=
  Shadowing.mapOf ModelProvider.id ModelProvider.name
    (layered ModelProvider.tenantId db.modelProvider chain)

/-- What an offering is known by in all tenants of the chain. -/
def identityOf (db : Tables) (chain : List String) (row : ModelOffering) :
    Option (String × String) := do
  let canonicalName ← (modelNameById db chain).get row.modelId
  let providerName ← (providerNameById db chain).get row.providerId
  return (canonicalName, providerName)

def listVisibleOfferings (db : Tables) (tenantId : String) :
    Except Fault (List ResolvedOffering) := do
  let chain ← getAncestorChain db tenantId
  let visibleModels := Shadowing.mapOf (fun m : Visible Model => m.row.canonicalName) id
    (← listVisibleModels db tenantId)
  let visibleProviders := Shadowing.mapOf (fun p : Visible ModelProvider => p.row.name) id
    (← listVisibleProviders db tenantId)
  let named := (layeredFrom ModelOffering.tenantId db.modelOffering tenantId chain).filter
    fun entry => (identityOf db chain entry.row).isSome
  let byKey := Shadowing.claims (fun entry : Visible ModelOffering => identityOf db chain entry.row)
    .empty named
  return byKey.values.filterMap fun entry =>
    if entry.row.disabled then none
    else do
      let (canonicalName, providerName) ← identityOf db chain entry.row
      let visibleModel ← visibleModels.get canonicalName
      let visibleProvider ← visibleProviders.get providerName
      return ⟨entry.row, visibleModel.row, visibleProvider.row, entry.origin⟩

/-! ### The nearest row -/

section

variable {ρ : Type} {tenantOf : ρ → String} {table : List ρ} {chain : List String} {p : ρ → Bool}

/-- Of the rows that pass a test, the one nearest to the leaf of a chain. -/
def nearest (tenantOf : ρ → String) (table : List ρ) (chain : List String) (p : ρ → Bool) :
    Option ρ :=
  (layered tenantOf table chain).find? p

lemma layeredFrom_eq_map : layeredFrom tenantOf table tenantId chain =
    (layered tenantOf table chain).map fun row =>
      ⟨row, tenantOf row, tenantOf row == tenantId⟩ := by
  rw [layeredFrom, layered, List.map_flatMap]
  refine List.flatMap_congr fun tid _ => List.map_congr_left fun row hrow => ?_
  obtain rfl : tenantOf row = tid := by simpa using (List.mem_filter.mp hrow).2
  rfl

lemma find?_layeredFrom : (layeredFrom tenantOf table tenantId chain).find? (p ·.row) =
    (nearest tenantOf table chain p).map fun row =>
      ⟨row, tenantOf row, tenantOf row == tenantId⟩ := by
  rw [layeredFrom_eq_map, List.find?_map]
  rfl

lemma mem_of_nearest {row : ρ} (h : nearest tenantOf table chain p = some row) :
    row ∈ table ∧ tenantOf row ∈ chain ∧ p row := by
  obtain ⟨tid, htid, hrow⟩ := List.mem_flatMap.mp (List.mem_of_find?_eq_some h)
  obtain ⟨htable, htenant⟩ := List.mem_filter.mp hrow
  exact ⟨htable, of_decide_eq_true htenant ▸ htid, List.find?_some h⟩

end

/-- What a tenant sees: the nearest offering for its two names, with the nearest model and the
nearest provider of these names, where none of the three is disabled. -/
structure IsVisible (db : Tables) (tenantId : String) (chain : List String)
    (r : ResolvedOffering) : Prop where
  offering : nearest ModelOffering.tenantId db.modelOffering chain
    (identityOf db chain · = some (r.model.canonicalName, r.provider.name)) = some r.offering
  model : nearest Model.tenantId db.model chain (·.canonicalName = r.model.canonicalName) =
    some r.model
  provider : nearest ModelProvider.tenantId db.modelProvider chain (·.name = r.provider.name) =
    some r.provider
  enabled : r.offering.disabled = false ∧ r.model.disabled = false ∧ r.provider.disabled = false
  origin : r.origin = ⟨r.offering.tenantId, r.offering.tenantId == tenantId⟩

section

variable {chain : List String} (hchain : getAncestorChain db tenantId = .ok chain)

include hchain

lemma listVisibleModels_eq : listVisibleModels db tenantId = .ok
    ((Shadowing.claims (fun entry : Visible Model => entry.row.canonicalName) .empty
      (layeredFrom Model.tenantId db.model tenantId chain)).values.filter (!·.row.disabled)) := by
  rw [listVisibleModels, hchain]
  rfl

lemma listVisibleProviders_eq : listVisibleProviders db tenantId = .ok
    ((Shadowing.claims (fun entry : Visible ModelProvider => entry.row.name) .empty
      (layeredFrom ModelProvider.tenantId db.modelProvider tenantId chain)).values.filter
        (!·.row.disabled)) := by
  rw [listVisibleProviders, hchain]
  rfl

omit hchain in
/-- A listed row is the nearest one for its names. -/
lemma mem_entries {entry : Visible ModelOffering} {names : String × String}
    (hnames : identityOf db chain entry.row = some names) :
    entry ∈ (Shadowing.claims (fun entry : Visible ModelOffering => identityOf db chain entry.row)
      .empty ((layeredFrom ModelOffering.tenantId db.modelOffering tenantId chain).filter
        fun entry => (identityOf db chain entry.row).isSome)).values ↔
      nearest ModelOffering.tenantId db.modelOffering chain (identityOf db chain · = some names) =
        some entry.row ∧
      entry.origin = ⟨entry.row.tenantId, entry.row.tenantId == tenantId⟩ := by
  have hpred : ∀ other : Visible ModelOffering,
      ((identityOf db chain other.row).isSome ∧ identityOf db chain other.row = some names) ↔
        identityOf db chain other.row = some names :=
    fun other => ⟨And.right, fun h => ⟨by rw [h]; rfl, h⟩⟩
  rw [Shadowing.mem_claims, List.find?_filter, hnames]
  simp only [decide_eq_true_eq, hpred]
  rw [find?_layeredFrom (p := fun row => decide (identityOf db chain row = some names)),
    Option.map_eq_some_iff]
  constructor
  · rintro ⟨row, hrow, rfl⟩
    exact ⟨hrow, rfl⟩
  · rintro ⟨hrow, horigin⟩
    exact ⟨entry.row, hrow, by rw [← horigin]⟩

omit hchain in
/-- What a name is a key of, among the rows that are not disabled. -/
lemma find?_enabled {ρ : Type} {tenantOf : ρ → String} {table : List ρ} (p disabled : ρ → Bool)
    {entry : Visible ρ} :
    ((layeredFrom tenantOf table tenantId chain).find? (p ·.row)).filter (!disabled ·.row) =
        some entry ↔
      nearest tenantOf table chain p = some entry.row ∧ disabled entry.row = false ∧
        entry.origin = ⟨tenantOf entry.row, tenantOf entry.row == tenantId⟩ := by
  rw [find?_layeredFrom, Option.filter_eq_some_iff, Option.map_eq_some_iff]
  constructor
  · rintro ⟨⟨row, hrow, rfl⟩, henabled⟩
    exact ⟨hrow, by simpa using henabled, rfl⟩
  · rintro ⟨hrow, henabled, horigin⟩
    exact ⟨⟨entry.row, hrow, by rw [← horigin]⟩, by simp [henabled]⟩

omit hchain in
lemma find?_of_enabled {ρ : Type} {tenantOf : ρ → String} {table : List ρ} (p disabled : ρ → Bool)
    {row : ρ} (hrow : nearest tenantOf table chain p = some row) (hon : disabled row = false) :
    ((layeredFrom tenantOf table tenantId chain).find? (p ·.row)).filter (!disabled ·.row) =
      some ⟨row, tenantOf row, tenantOf row == tenantId⟩ :=
  (find?_enabled p disabled).mpr ⟨hrow, hon, rfl⟩

/-- **What a tenant sees** is listed, and nothing else. -/
theorem mem_listVisibleOfferings {offerings : List ResolvedOffering}
    (h : listVisibleOfferings db tenantId = .ok offerings) {r : ResolvedOffering} :
    r ∈ offerings ↔ IsVisible db tenantId chain r := by
  rw [listVisibleOfferings, hchain, listVisibleModels_eq hchain,
    listVisibleProviders_eq hchain] at h
  simp only [bind, Except.bind, pure, Except.pure, Shadowing.get_mapOf_claims,
    Except.ok.injEq] at h
  subst h
  rw [List.mem_filterMap]
  constructor
  · rintro ⟨entry, hentry, hsome⟩
    split_ifs at hsome with hdisabled
    obtain ⟨names, hnames, model, hmodel, provider, hprovider, hr⟩ := by
      simpa only [Option.bind_eq_some_iff] using hsome
    obtain rfl := Option.some.inj hr
    obtain ⟨hoffering, horigin⟩ := (mem_entries hnames).mp hentry
    obtain ⟨hmodel, hmodelOn, -⟩ :=
      (find?_enabled (fun row => row.canonicalName = names.1) Model.disabled).mp hmodel
    obtain ⟨hprovider, hproviderOn, -⟩ :=
      (find?_enabled (fun row => row.name = names.2) ModelProvider.disabled).mp hprovider
    have hnamed : names = (model.row.canonicalName, provider.row.name) := by
      have hcanonical := (mem_of_nearest hmodel).2.2
      have hname := (mem_of_nearest hprovider).2.2
      rw [decide_eq_true_eq] at hcanonical hname
      exact Prod.ext hcanonical.symm hname.symm
    subst hnamed
    exact ⟨hoffering, hmodel, hprovider, ⟨by simpa using hdisabled, hmodelOn, hproviderOn⟩, horigin⟩
  · rintro ⟨hoffering, hmodel, hprovider, ⟨hon, hmodelOn, hproviderOn⟩, horigin⟩
    have hnames : identityOf db chain r.offering =
        some (r.model.canonicalName, r.provider.name) := by
      simpa using (mem_of_nearest hoffering).2.2
    refine ⟨⟨r.offering, r.origin⟩, (mem_entries hnames).mpr ⟨hoffering, horigin⟩, ?_⟩
    rw [if_neg (by simp [hon]), hnames]
    simp only [Option.bind_some]
    rw [find?_of_enabled (fun row => row.canonicalName = r.model.canonicalName) Model.disabled
      hmodel hmodelOn, Option.bind_some, find?_of_enabled (fun row => row.name = r.provider.name)
      ModelProvider.disabled hprovider hproviderOn, Option.bind_some]

/-- A tenant sees one offering at most for each pair of names. -/
lemma nodup_listVisibleOfferings {offerings : List ResolvedOffering}
    (h : listVisibleOfferings db tenantId = .ok offerings) :
    (offerings.map fun r => (r.model.canonicalName, r.provider.name)).Nodup := by
  have hvisible := fun r hr => (mem_listVisibleOfferings hchain h (r := r)).mp hr
  rw [listVisibleOfferings, hchain, listVisibleModels_eq hchain,
    listVisibleProviders_eq hchain] at h
  simp only [bind, Except.bind, pure, Except.pure, Except.ok.injEq] at h
  rw [List.nodup_iff_pairwise_ne, List.pairwise_map]
  have hoffering : offerings.Pairwise fun r r' =>
      identityOf db chain r.offering ≠ identityOf db chain r'.offering := by
    rw [← h]
    have hkeys : ((Shadowing.claims
        (fun entry : Visible ModelOffering => identityOf db chain entry.row) .empty
        ((layeredFrom ModelOffering.tenantId db.modelOffering tenantId chain).filter
          fun entry => (identityOf db chain entry.row).isSome)).values.map
        fun entry => identityOf db chain entry.row).Nodup := Shadowing.nodup_claims
    rw [List.nodup_iff_pairwise_ne, List.pairwise_map] at hkeys
    refine List.Pairwise.filterMap _ ?_ hkeys
    intro entry entry' hne r hr r' hr'
    split_ifs at hr hr'
    obtain ⟨_, -, _, -, _, -, hr⟩ := by simpa only [Option.bind_eq_some_iff] using hr
    obtain ⟨_, -, _, -, _, -, hr'⟩ := by simpa only [Option.bind_eq_some_iff] using hr'
    rw [← Option.some.inj hr, ← Option.some.inj hr']
    exact hne
  refine hoffering.imp_of_mem fun {r r'} hr hr' hne hnames => hne ?_
  have hof : ∀ r ∈ offerings, identityOf db chain r.offering =
      some (r.model.canonicalName, r.provider.name) := fun r hr => by
    simpa using (mem_of_nearest (hvisible r hr).offering).2.2
  rw [hof r hr, hof r' hr', hnames]

/-- An offering is seen once. -/
lemma nodup_offeringIds (hkeyed : db.WellKeyed) {offerings : List ResolvedOffering}
    (h : listVisibleOfferings db tenantId = .ok offerings) :
    (offerings.map (·.offering.id)).Nodup := by
  have hnames := nodup_listVisibleOfferings hchain h
  rw [List.nodup_iff_pairwise_ne, List.pairwise_map] at hnames ⊢
  refine hnames.imp_of_mem fun {r r'} hr hr' hne hids => hne ?_
  have hoffering := ((mem_listVisibleOfferings hchain h).mp hr).offering
  have hoffering' := ((mem_listVisibleOfferings hchain h).mp hr').offering
  have hsame : r.offering = r'.offering := by
    have hfind := Shadowing.find?_of_nodup hkeyed.modelOffering (mem_of_nearest hoffering).1
    have hfind' := Shadowing.find?_of_nodup hkeyed.modelOffering (mem_of_nearest hoffering').1
    rw [hids, hfind'] at hfind
    exact (Option.some.inj hfind).symm
  have hnamed := (mem_of_nearest hoffering).2.2
  have hnamed' := (mem_of_nearest hoffering').2.2
  rw [decide_eq_true_eq] at hnamed hnamed'
  rw [hsame, hnamed'] at hnamed
  exact (Option.some.inj hnamed).symm

end

/-- **The catalog of a tenant**: for each pair of a model name and a provider name the nearest
offering, with the nearest model and the nearest provider, where none of the three is disabled. A
row that is disabled hides those above it. There is no catalog where the tenants go in a circle. -/
theorem listVisibleOfferings_spec (db : Tables) (tenantId : String) :
    match getAncestorChain db tenantId with
    | .error fault => listVisibleOfferings db tenantId = .error fault
    | .ok chain => ∃ offerings, listVisibleOfferings db tenantId = .ok offerings ∧
        (∀ r, r ∈ offerings ↔ IsVisible db tenantId chain r) ∧
        (offerings.map fun r => (r.model.canonicalName, r.provider.name)).Nodup := by
  cases hchain : getAncestorChain db tenantId with
  | error fault =>
    dsimp only
    rw [listVisibleOfferings, hchain]
    rfl
  | ok chain =>
    have hok : ∃ offerings, listVisibleOfferings db tenantId = .ok offerings := by
      rw [listVisibleOfferings, hchain, listVisibleModels_eq hchain, listVisibleProviders_eq hchain]
      exact ⟨_, rfl⟩
    obtain ⟨offerings, hofferings⟩ := hok
    exact ⟨offerings, hofferings, fun r => mem_listVisibleOfferings hchain hofferings,
      nodup_listVisibleOfferings hchain hofferings⟩

end Workbench.Catalog
