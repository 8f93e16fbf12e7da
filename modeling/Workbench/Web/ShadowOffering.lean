import Workbench.Web.Hub

/-!
A workbench brings its own key for an inherited offering: a model, a credential, a catalog provider
and the offering, each created or, on a name conflict, found.

A row that is found is taken as it is. What the tenant then has is what was asked for exactly when
the rows it had fit.
-/

namespace Workbench.Web

open Workbench.Lib

/-- The key to store, or a credential that the hub has stored already. -/
inductive CredentialInput
  | apiKey (key : String)
  | credentialId (id : Id)
  deriving DecidableEq, Repr

structure ShadowOfferingInput where
  providerName : String
  plugin : String
  baseURL : String
  canonicalName : String
  modelDisplayName : Option String
  credential : CredentialInput
  priority : ℤ
  deriving DecidableEq, Repr

structure EnsureModelProviderResult where
  providerId : Id
  minted : Bool
  deriving DecidableEq, Repr

/-- Creates a row; on a conflict, lists the rows and finds it. -/
def createOrFind {α : Type} (create list : Request) (made : create.Body → α)
    (find : list.Body → Option α) (failed loading unlisted : String) : Call α :=
  .ask create fun
    | .answered (.ok row) => .done (.ok (made row))
    | .answered .conflict => (request list loading).bind fun page =>
      match find page with
      | some existing => .done (.ok existing)
      | none => .fail unlisted
    | .threw => .fail networkError
    | _ => .fail failed

def ensureModel (canonicalName : String) (displayName : Option String) : Call Id :=
  createOrFind (.createModel canonicalName displayName) .listModels
    (fun (row : ModelRow) => row.id)
    (fun (page : List ModelRow) =>
      (page.find? (·.canonicalName = canonicalName)).map (·.id))
    ("Couldn't create this workbench's own copy of " ++ canonicalName)
    "loading this workbench's own models"
    (canonicalName ++ " reported a name conflict but is not listed on this workbench.")

/-- The one credential name a workbench files a provider's key or token under. -/
def credentialNameFor (providerName : String) : String := providerName ++ "-workbench"

def ensureProviderRow (input : ShadowOfferingInput) : Call Id :=
  createOrFind (.createProvider input.providerName input.plugin (some input.baseURL))
    .listProviders
    (fun (row : Provider) => row.id)
    (fun (page : List Provider) => (page.find? (·.name = input.providerName)).map (·.id))
    ("Couldn't register " ++ input.providerName ++ " for this workbench")
    "loading this workbench's own providers"
    (input.providerName ++ " reported a name conflict but is not listed on this workbench.")

def ensureCredential (input : ShadowOfferingInput) : Call Id :=
  match input.credential with
  | .credentialId id => .done (.ok id)
  | .apiKey apiKey => (ensureProviderRow input).bind fun providerRow =>
    createOrFind
      (.createCredential providerRow (credentialNameFor input.providerName) apiKey {})
      .listCredentials
      (fun (row : Credential) => row.id)
      (fun (page : List Credential) =>
        (page.find? (·.name = credentialNameFor input.providerName)).map (·.id))
      ("Couldn't store this workbench's key for " ++ input.providerName)
      "loading this workbench's own credentials"
      (input.providerName ++ "'s key reported a name conflict but is not listed on this workbench.")

def ensureModelProvider (input : ShadowOfferingInput) (credentialId : Id) :
    Call EnsureModelProviderResult :=
  createOrFind
    (.createModelProvider input.providerName input.plugin input.baseURL credentialId)
    .listModelProviders
    (fun (row : ModelProvider) => ⟨row.id, true⟩)
    (fun (page : List ModelProvider) =>
      (page.find? (·.name = input.providerName)).map fun existing => ⟨existing.id, false⟩)
    ("Couldn't create this workbench's own " ++ input.providerName ++ " catalog entry")
    "loading this workbench's own catalog providers"
    (input.providerName ++
      " reported a name conflict but is not listed on this workbench's catalog.")

def ensureOffering (modelId providerId : Id) (priority : ℤ) : Call ModelOffering :=
  createOrFind (.createOffering modelId providerId priority) .listOfferings
    (fun (row : ModelOffering) => row)
    (fun (page : List ModelOffering) =>
      page.find? fun row => row.modelId = modelId ∧ row.providerId = providerId)
    "Couldn't add this workbench's offering to the catalog"
    "loading this workbench's own offerings"
    "This offering reported a conflict but is not listed on this workbench."

/-- A provider that this call has minted is deleted when the offering fails. The failure of that
is reported and no more. -/
def rollback (provider : EnsureModelProviderResult) (cause : String) : Call ModelOffering :=
  if provider.minted then
    (request (.deleteModelProvider provider.providerId)
      "rolling back the just-minted provider").andThen fun _ => .fail cause
  else .fail cause

def offerOrRollback (modelId : Id) (priority : ℤ) (provider : EnsureModelProviderResult) :
    Call ModelOffering :=
  (ensureOffering modelId provider.providerId priority).andThen fun
    | .ok offering => .done (.ok offering)
    | .error cause => rollback provider cause

def shadowOffering (input : ShadowOfferingInput) : Call ModelOffering := do
  let modelId ← ensureModel input.canonicalName input.modelDisplayName
  let credentialId ← ensureCredential input
  let provider ← ensureModelProvider input credentialId
  offerOrRollback modelId input.priority provider

/-! ### What is there when it resolves -/

variable {S : Services} {t u : Tenant S} {input : ShadowOfferingInput}

/-- The row that is created or found; in every other case the call fails. -/
lemma ensures_createOrFind {G : Tenant S → Request → Delivery → Prop} {α : Type}
    {create list : Request} {made : create.Body → α} {find : list.Body → Option α}
    {failed loading unlisted : String} {post : α → Tenant S → Prop}
    (hlist : ∀ v : Tenant S, (v.serve list).2 = v)
    (hmade : ∀ row, (t.serve create).1 = .ok row → post (made row) (t.serve create).2)
    (hfound : ∀ page a, (t.serve list).1 = .ok page → find page = some a → post a t) :
    Client.Ensures Tenant.serve G (createOrFind create list made find failed loading unlisted)
      (fun result v => ∀ a, result = .ok a → post a v) t := by
  refine (Client.ensures_ask _ _).mpr fun d _ => ?_
  have hfail (message : String) (v : Tenant S) : Client.Ensures Tenant.serve G
      (.fail message : Call α) (fun result v => ∀ a, result = .ok a → post a v) v :=
    (Client.ensures_done _).mpr fun _ hok => by cases hok
  cases d with
  | answered =>
    rw [Client.deliver]
    cases hanswer : (t.serve create).1 with
    | ok row =>
      refine (Client.ensures_done _).mpr ?_
      rintro _ ⟨⟩
      exact hmade row hanswer
    | conflict =>
      rw [Tenant.serve_conflict hanswer]
      refine (Client.ensures_bind _ _).mpr (ensures_request_keeps (I := fun _ => True) trivial
        trivial ?_ fun _ _ _ _ hok => by cases hok)
      intro page _ hpage
      dsimp only
      cases hfind : find page with
      | none => exact hfail _ _
      | some existing =>
        refine (Client.ensures_done _).mpr ?_
        rintro _ ⟨⟩
        rw [hlist]
        exact hfound page existing hpage hfind
    | notFound => exact hfail _ _
    | failed => exact hfail _ _
  | refused => exact hfail _ _
  | unreached => exact hfail _ _
  | lost => exact hfail _ _

/-- The model that `ensureModel` gives. -/
def ModelEnsured (canonicalName : String) (t : Tenant S) (id : Id) (u : Tenant S) : Prop :=
  ∃ row models next, row.id = id ∧ row.canonicalName = canonicalName ∧
    Ensured ModelRow.canonicalName (fun row => t.nextId ≤ row.id) row t.models models ∧
    t.nextId ≤ next ∧ u = { t with models := models, nextId := next }

lemma ensures_ensureModel {G : Tenant S → Request → Delivery → Prop} (canonicalName : String)
    (displayName : Option String) :
    Client.Ensures Tenant.serve G (ensureModel canonicalName displayName)
      (fun result u => ∀ id, result = .ok id → ModelEnsured canonicalName t id u) t := by
  refine ensures_createOrFind (fun _ => rfl) (fun row hrow => ?_) fun page id hpage hfind => ?_
  · obtain ⟨hfields, hfree, hafter⟩ := @Tenant.createModel_ok S t _ _ row hrow
    rw [Tenant.serve, hafter]
    have hname : row.canonicalName = canonicalName := by rw [hfields]
    refine ⟨row, _, _, rfl, hname, .created (hname ▸ hfree) ?_ rfl, Nat.le_succ _, rfl⟩
    exact Nat.le_of_eq (by rw [hfields])
  · cases hpage
    obtain ⟨row, hrow, rfl⟩ := Option.map_eq_some_iff.mp hfind
    have hmem := List.mem_of_mem_take (List.mem_of_find?_eq_some hrow)
    have hname : row.canonicalName = canonicalName := by simpa using List.find?_some hrow
    exact ⟨row, t.models, t.nextId, rfl, hname, .found hmem rfl, Nat.le_refl _, rfl⟩

/-- The credential that `ensureCredential` gives. -/
def CredentialEnsured (input : ShadowOfferingInput) (t : Tenant S) (id : Id) (u : Tenant S) :
    Prop :=
  match input.credential with
  | .credentialId given => id = given ∧ u = t
  | .apiKey key => ∃ row credentials providers next, row.id = id ∧
    row.name = credentialNameFor input.providerName ∧
    Ensured Credential.name (fun row => t.nextId ≤ row.id ∧ row.secret = key) row t.credentials
      credentials ∧
    t.nextId ≤ next ∧ u = { t with
      credentials := credentials, providers := providers, nextId := next }

lemma ensures_ensureCredential {G : Tenant S → Request → Delivery → Prop} :
    Client.Ensures Tenant.serve G (ensureCredential input)
      (fun result u => ∀ id, result = .ok id → CredentialEnsured input t id u) t := by
  unfold ensureCredential CredentialEnsured
  cases input.credential with
  | credentialId given =>
    refine (Client.ensures_done _).mpr ?_
    rintro _ ⟨⟩
    exact ⟨rfl, rfl⟩
  | apiKey key =>
    have hprovider : Client.Ensures Tenant.serve G (ensureProviderRow input)
        (fun result u => ∀ id : Id, result = .ok id → ∃ providers next, t.nextId ≤ next ∧
          u = { t with providers := providers, nextId := next }) t := by
      refine ensures_createOrFind (fun _ => rfl) (fun row hrow => ?_) fun _ _ _ _ => ?_
      · obtain ⟨-, hafter⟩ := @Tenant.createProvider_ok S t _ _ _ row hrow
        rw [Tenant.serve, hafter]
        exact ⟨_, _, Nat.le_succ _, rfl⟩
      · exact ⟨t.providers, t.nextId, Nat.le_refl _, rfl⟩
    refine (Client.ensures_bind _ _).mpr (hprovider.mono ?_)
    rintro (message | providerRow) v hv
    · exact fun _ hok => by cases hok
    obtain ⟨providers, next, hnext, rfl⟩ := hv providerRow rfl
    refine ensures_createOrFind (fun _ => rfl) (fun row hrow => ?_) fun page id hpage hfind => ?_
    · obtain ⟨hfields, hafter⟩ := @Tenant.createCredential_ok S _ _ _ _ _ row hrow
      have hfree := @Tenant.createCredential_free S _ _ _ _ _ row hrow
      rw [Tenant.serve, hafter]
      have hname : row.name = credentialNameFor input.providerName := by rw [hfields]
      refine ⟨row, _, _, _, rfl, hname, .created (hname ▸ hfree) ?_ rfl,
        Nat.le_trans hnext (Nat.le_succ _), rfl⟩
      rw [hfields]
      exact ⟨hnext, rfl⟩
    · cases hpage
      obtain ⟨row, hrow, rfl⟩ := Option.map_eq_some_iff.mp hfind
      have hmem := List.mem_of_mem_take (List.mem_of_find?_eq_some hrow)
      have hname : row.name = credentialNameFor input.providerName := by
        simpa using List.find?_some hrow
      exact ⟨row, t.credentials, providers, next, rfl, hname, .found hmem rfl, hnext, rfl⟩

/-- The catalog provider that `ensureModelProvider` gives. -/
def ModelProviderEnsured (input : ShadowOfferingInput) (credentialId : Id) (t : Tenant S)
    (provider : EnsureModelProviderResult) (u : Tenant S) : Prop :=
  ∃ row modelProviders next, row.id = provider.providerId ∧ row.name = input.providerName ∧
    Ensured ModelProvider.name (fun row => t.nextId ≤ row.id ∧ row.plugin = input.plugin ∧
      row.baseURL = input.baseURL ∧ row.credentialId = some credentialId) row t.modelProviders
      modelProviders ∧
    t.nextId ≤ next ∧ u = { t with modelProviders := modelProviders, nextId := next }

lemma ensures_ensureModelProvider {G : Tenant S → Request → Delivery → Prop} (credentialId : Id) :
    Client.Ensures Tenant.serve G (ensureModelProvider input credentialId)
      (fun result u => ∀ provider, result = .ok provider →
        ModelProviderEnsured input credentialId t provider u) t := by
  refine ensures_createOrFind (fun _ => rfl) (fun row hrow => ?_) fun page id hpage hfind => ?_
  · obtain ⟨hfields, hfree, hafter⟩ := @Tenant.createModelProvider_ok S t _ _ _ _ row hrow
    rw [Tenant.serve, hafter]
    have hname : row.name = input.providerName := by rw [hfields]
    refine ⟨row, _, _, rfl, hname, .created (hname ▸ hfree) ?_ rfl, Nat.le_succ _, rfl⟩
    rw [hfields]
    exact ⟨Nat.le_refl _, rfl, rfl, rfl⟩
  · cases hpage
    obtain ⟨row, hrow, rfl⟩ := Option.map_eq_some_iff.mp hfind
    have hmem := List.mem_of_mem_take (List.mem_of_find?_eq_some hrow)
    have hname : row.name = input.providerName := by simpa using List.find?_some hrow
    exact ⟨row, t.modelProviders, t.nextId, rfl, hname, .found hmem rfl, Nat.le_refl _, rfl⟩

/-- The offering that `ensureOffering` gives. -/
def OfferingEnsured (modelId providerId : Id) (priority : ℤ) (t : Tenant S)
    (row : ModelOffering) (u : Tenant S) : Prop :=
  ∃ offerings next, row.modelId = modelId ∧ row.providerId = providerId ∧
    Ensured (fun row => (row.modelId, row.providerId))
      (fun row => row.priority = priority ∧ row.disabled = false) row t.offerings offerings ∧
    u = { t with offerings := offerings, nextId := next }

lemma ensures_ensureOffering {G : Tenant S → Request → Delivery → Prop} (modelId providerId : Id)
    (priority : ℤ) :
    Client.Ensures Tenant.serve G (ensureOffering modelId providerId priority)
      (fun result u => ∀ row, result = .ok row →
        OfferingEnsured modelId providerId priority t row u) t := by
  refine ensures_createOrFind (fun _ => rfl) (fun row hrow => ?_) fun page row hpage hfind => ?_
  · obtain ⟨hfields, hfree, hafter⟩ := @Tenant.createOffering_ok S t _ _ _ row hrow
    rw [Tenant.serve, hafter]
    have hmodel : row.modelId = modelId := by rw [hfields]
    have hprovider : row.providerId = providerId := by rw [hfields]
    refine ⟨_, _, hmodel, hprovider, .created ?_ ?_ rfl, rfl⟩
    · rw [hmodel, hprovider]
      exact hfree
    · rw [hfields]
      exact ⟨rfl, rfl⟩
  · cases hpage
    have hmem := List.mem_of_mem_take (List.mem_of_find?_eq_some hfind)
    have hpair : row.modelId = modelId ∧ row.providerId = providerId := by
      simpa using List.find?_some hfind
    exact ⟨t.offerings, t.nextId, hpair.1, hpair.2, .found hmem rfl, rfl⟩

/-! ### What was asked for -/

/-- The credential of the provider holds what was given. -/
def Holds (t : Tenant S) (provider : ModelProvider) : CredentialInput → Prop
  | .credentialId id => provider.credentialId = some id
  | .apiKey key => ∃ row ∈ t.credentials ++ t.inheritedCredentials,
    provider.credentialId = some row.id ∧ row.secret = key

/-- The provider row is the one that was asked for. -/
def ProviderFits (input : ShadowOfferingInput) (t : Tenant S) (provider : ModelProvider) : Prop :=
  provider.baseURL = input.baseURL ∧ provider.plugin = input.plugin ∧
    Holds t provider input.credential

/-- The offering is the one that was asked for. -/
def OfferingFits (input : ShadowOfferingInput) (offering : ModelOffering) : Prop :=
  offering.priority = input.priority ∧ offering.disabled = false

/-- The tenant has what was asked for. -/
def Shadowed (input : ShadowOfferingInput) (t : Tenant S) : Prop :=
  ∃ model ∈ t.models, model.canonicalName = input.canonicalName ∧
    ∃ provider ∈ t.modelProviders, provider.name = input.providerName ∧
      ProviderFits input t provider ∧
      ∃ offering ∈ t.offerings, offering.modelId = model.id ∧ offering.providerId = provider.id ∧
        OfferingFits input offering

instance (t : Tenant S) (provider : ModelProvider) (credential : CredentialInput) :
    Decidable (Holds t provider credential) :=
  match credential with
  | .credentialId id => inferInstanceAs (Decidable (provider.credentialId = some id))
  | .apiKey key => inferInstanceAs (Decidable (∃ row ∈ t.credentials ++ t.inheritedCredentials,
      provider.credentialId = some row.id ∧ row.secret = key))

instance (input : ShadowOfferingInput) (t : Tenant S) (provider : ModelProvider) :
    Decidable (ProviderFits input t provider) :=
  inferInstanceAs (Decidable (_ ∧ _ ∧ _))

instance (input : ShadowOfferingInput) (offering : ModelOffering) :
    Decidable (OfferingFits input offering) :=
  inferInstanceAs (Decidable (_ ∧ _))

instance (input : ShadowOfferingInput) (t : Tenant S) : Decidable (Shadowed input t) :=
  inferInstanceAs (Decidable (∃ model ∈ t.models, model.canonicalName = input.canonicalName ∧
    ∃ provider ∈ t.modelProviders, provider.name = input.providerName ∧
      ProviderFits input t provider ∧
      ∃ offering ∈ t.offerings, offering.modelId = model.id ∧ offering.providerId = provider.id ∧
        OfferingFits input offering))

/-- The rows that a call would find fit what is asked for: the catalog provider of the name, the
key filed for it if there is no such provider yet, and the offering. -/
structure RowsFit (input : ShadowOfferingInput) (t : Tenant S) : Prop where
  provider : ∀ provider ∈ t.modelProviders, provider.name = input.providerName →
    ProviderFits input t provider
  credential : (∀ provider ∈ t.modelProviders, provider.name ≠ input.providerName) →
    ∀ key, input.credential = .apiKey key → ∀ row ∈ t.credentials,
      row.name = credentialNameFor input.providerName → row.secret = key
  offering : ∀ model ∈ t.models, model.canonicalName = input.canonicalName →
    ∀ provider ∈ t.modelProviders, provider.name = input.providerName →
      ∀ offering ∈ t.offerings, offering.modelId = model.id → offering.providerId = provider.id →
        OfferingFits input offering

/-- The tables after a call that has resolved, over those before it. -/
structure Resolved (input : ShadowOfferingInput) (t u : Tenant S) (model : ModelRow)
    (credentialId : Id) (provider : ModelProvider) (offering : ModelOffering) : Prop where
  modelName : model.canonicalName = input.canonicalName
  models : Ensured ModelRow.canonicalName (fun row => t.nextId ≤ row.id) model t.models u.models
  inherited : u.inheritedCredentials = t.inheritedCredentials
  credentials : match input.credential with
    | .credentialId given => credentialId = given ∧ u.credentials = t.credentials
    | .apiKey key => ∃ row, row.id = credentialId ∧
      row.name = credentialNameFor input.providerName ∧
      Ensured Credential.name (fun row => t.nextId ≤ row.id ∧ row.secret = key) row t.credentials
        u.credentials
  providerName : provider.name = input.providerName
  modelProviders : Ensured ModelProvider.name (fun row => t.nextId ≤ row.id ∧
    row.plugin = input.plugin ∧ row.baseURL = input.baseURL ∧
    row.credentialId = some credentialId) provider t.modelProviders u.modelProviders
  offeringModel : offering.modelId = model.id
  offeringProvider : offering.providerId = provider.id
  offerings : Ensured (fun row => (row.modelId, row.providerId))
    (fun row => row.priority = input.priority ∧ row.disabled = false) offering
    t.offerings u.offerings

lemma ensures_shadowOffering {G : Tenant S → Request → Delivery → Prop} :
    Client.Ensures Tenant.serve G (shadowOffering input) (fun result u =>
      ∀ offering, result = .ok offering →
        ∃ model credentialId provider,
          Resolved input t u model credentialId provider offering) t := by
  refine (Client.ensures_bind _ _).mpr ((ensures_ensureModel _ _).mono ?_)
  rintro (message | modelId) t₁ hensured
  · exact fun _ hok => by cases hok
  obtain ⟨model, models, next₁, rfl, hmodelName, hmodel, hnext₁, rfl⟩ := hensured modelId rfl
  clear hensured
  refine (Client.ensures_bind _ _).mpr (ensures_ensureCredential.mono ?_)
  rintro (message | credentialId) t₂ hcredential
  · exact fun _ hok => by cases hok
  have hcredential := hcredential credentialId rfl
  -- the tables of the catalog are those of `t`, but for the models
  have ht₂ : t.nextId ≤ t₂.nextId ∧ t₂.models = models ∧ t₂.modelProviders = t.modelProviders ∧
      t₂.offerings = t.offerings ∧ t₂.inheritedCredentials = t.inheritedCredentials ∧
      match input.credential with
      | .credentialId given => credentialId = given ∧ t₂.credentials = t.credentials
      | .apiKey key => ∃ row, row.id = credentialId ∧
        row.name = credentialNameFor input.providerName ∧
        Ensured Credential.name (fun row => t.nextId ≤ row.id ∧ row.secret = key) row
          t.credentials t₂.credentials := by
    unfold CredentialEnsured at hcredential
    cases hinput : input.credential with
    | credentialId given =>
      rw [hinput] at hcredential
      obtain ⟨hgiven, rfl⟩ := hcredential
      exact ⟨hnext₁, rfl, rfl, rfl, rfl, hgiven, rfl⟩
    | apiKey key =>
      rw [hinput] at hcredential
      obtain ⟨row, credentials, providers, next₂, hid, hname, hrow, hnext₂, rfl⟩ := hcredential
      refine ⟨Nat.le_trans hnext₁ hnext₂, rfl, rfl, rfl, rfl, row, hid, hname, ?_⟩
      cases hrow with
      | found mem same => exact .found mem same
      | created free new cons => exact .created free ⟨Nat.le_trans hnext₁ new.1, new.2⟩ cons
  obtain ⟨hnext₂, hmodels, hproviders, hofferings, hinherited, hcredential⟩ := ht₂
  refine (Client.ensures_bind _ _).mpr ((ensures_ensureModelProvider credentialId).mono ?_)
  rintro (message | result) t₃ hensured
  · exact fun _ hok => by cases hok
  obtain ⟨provider, modelProviders, next₃, hid, hproviderName, hprovider, -, rfl⟩ :=
    hensured result rfl
  clear hensured
  refine (Client.ensures_andThen _ _).mpr ((ensures_ensureOffering _ _ _).mono ?_)
  rintro (cause | offering) t₄ hensured
  · -- an offering that fails never resolves the call
    unfold rollback
    split_ifs
    · refine (Client.ensures_andThen _ _).mpr (ensures_request_keeps (I := fun _ => True) trivial
        trivial ?_ ?_)
      · exact fun _ _ _ => (Client.ensures_done _).mpr fun _ hok => by cases hok
      · exact fun _ _ _ => (Client.ensures_done _).mpr fun _ hok => by cases hok
    · exact (Client.ensures_done _).mpr fun _ hok => by cases hok
  · refine (Client.ensures_done _).mpr ?_
    rintro _ ⟨⟩
    obtain ⟨offerings, next₄, hofferingModel, hofferingProvider, hoffering, rfl⟩ :=
      hensured offering rfl
    clear hensured
    refine ⟨model, credentialId, provider, hmodelName, hmodels ▸ hmodel, hinherited, hcredential,
      hproviderName, ?_, hofferingModel, hofferingProvider.trans hid.symm, hofferings ▸ hoffering⟩
    rw [hproviders] at hprovider
    cases hprovider with
    | found mem same => exact .found mem same
    | created free new cons => exact .created free ⟨Nat.le_trans hnext₂ new.1, new.2⟩ cons

section Resolved

variable {model : ModelRow} {credentialId : Id} {provider : ModelProvider}
  {offering : ModelOffering}

/-- What a provider row of before uses is as it was. -/
lemma Resolved.holds_iff (h : Resolved input t u model credentialId provider offering)
    (ht : t.Consistent) {row : ModelProvider} (hrow : row ∈ t.modelProviders) :
    Holds u row input.credential ↔ Holds t row input.credential := by
  have hcredentials := h.credentials
  cases hinput : input.credential with
  | credentialId given => exact Iff.rfl
  | apiKey key =>
    rw [hinput] at hcredentials
    obtain ⟨stored, -, -, hensured⟩ := hcredentials
    simp only [Holds, h.inherited]
    constructor
    · rintro ⟨used, hused, hid, hsecret⟩
      refine ⟨used, ?_, hid, hsecret⟩
      rcases List.mem_append.mp hused with hown | hinherited
      · rcases hensured.mem_cases hown with hold | ⟨rfl, hfresh, -⟩
        · exact List.mem_append_left _ hold
        · -- a new credential has an id that no row refers to
          exact absurd (ht.modelProviderCredential row hrow _ hid) (Nat.not_lt.mpr hfresh)
      · exact List.mem_append_right _ hinherited
    · rintro ⟨used, hused, hid, hsecret⟩
      refine ⟨used, ?_, hid, hsecret⟩
      rcases List.mem_append.mp hused with hown | hinherited
      · exact List.mem_append_left _ (hensured.subset hown)
      · exact List.mem_append_right _ hinherited

lemma Resolved.rowsFit (h : Resolved input t u model credentialId provider offering)
    (ht : t.Consistent) (hu : u.Consistent) (hshadowed : Shadowed input u) : RowsFit input t := by
  obtain ⟨m, hm, hmname, p, hp, hpname, hfits, o, ho, hom, hop, hofits⟩ := hshadowed
  obtain rfl := hu.models.eq_of_key hm h.models.mem (hmname.trans h.modelName.symm)
  obtain rfl := hu.modelProviders.eq_of_key hp h.modelProviders.mem
    (hpname.trans h.providerName.symm)
  obtain rfl := hu.offerings.eq_of_key ho h.offerings.mem
    (Prod.ext (hom.trans h.offeringModel.symm) (hop.trans h.offeringProvider.symm))
  refine ⟨fun row hrow hname => ?_, fun hnone key hkey row hrow hname => ?_, ?_⟩
  · obtain rfl := hu.modelProviders.eq_of_key (h.modelProviders.subset hrow) hp
      (hname.trans hpname.symm)
    exact ⟨hfits.1, hfits.2.1, (h.holds_iff ht hrow).mp hfits.2.2⟩
  · -- the provider was created, with the credential that was found or created
    have hused : p.credentialId = some credentialId := by
      cases h.modelProviders with
      | found mem same => exact absurd hpname (hnone p mem)
      | created free new cons => exact new.2.2.2
    have hcredentials := h.credentials
    have hholds := hfits.2.2
    rw [hkey] at hcredentials hholds
    obtain ⟨stored, hid, hstored, hensured⟩ := hcredentials
    obtain ⟨used, hmem, husedId, hsecret⟩ := hholds
    have hidEq : used.id = stored.id :=
      (Option.some.inj (husedId.symm.trans hused)).trans hid.symm
    have heq : used = stored := by
      rcases List.mem_append.mp hmem with hown | hinherited
      · exact hu.credentials.eq_of_id hown hensured.mem hidEq
      · exact absurd hidEq.symm (hu.credentialsApart stored hensured.mem used hinherited)
    obtain rfl := hu.credentials.eq_of_key (hensured.subset hrow) hensured.mem
      (hname.trans hstored.symm)
    rw [← heq]
    exact hsecret
  · intro m' hm' hm'name p' hp' hp'name o' ho' hom' hop'
    obtain rfl := hu.models.eq_of_key (h.models.subset hm') hm (hm'name.trans hmname.symm)
    obtain rfl := hu.modelProviders.eq_of_key (h.modelProviders.subset hp') hp
      (hp'name.trans hpname.symm)
    obtain rfl := hu.offerings.eq_of_key (h.offerings.subset ho') ho
      (Prod.ext (hom'.trans hom.symm) (hop'.trans hop.symm))
    exact hofits

lemma Resolved.shadowed (h : Resolved input t u model credentialId provider offering)
    (ht : t.Consistent) (hfit : RowsFit input t) : Shadowed input u := by
  refine ⟨model, h.models.mem, h.modelName, provider, h.modelProviders.mem, h.providerName, ?_,
    offering, h.offerings.mem, h.offeringModel, h.offeringProvider, ?_⟩
  · cases h.modelProviders with
    | found mem same =>
      obtain ⟨hbase, hplugin, hholds⟩ := hfit.provider provider mem h.providerName
      exact ⟨hbase, hplugin, (h.holds_iff ht mem).mpr hholds⟩
    | created free new cons =>
      refine ⟨new.2.2.1, new.2.1, ?_⟩
      have hcredentials := h.credentials
      cases hinput : input.credential with
      | credentialId given =>
        rw [hinput] at hcredentials
        exact new.2.2.2.trans (congrArg some hcredentials.1)
      | apiKey key =>
        rw [hinput] at hcredentials
        obtain ⟨stored, hid, hstored, hensured⟩ := hcredentials
        refine ⟨stored, List.mem_append_left _ hensured.mem, hid ▸ new.2.2.2, ?_⟩
        cases hensured with
        | found mem same =>
          exact hfit.credential (fun row hrow => h.providerName ▸ free row hrow) key hinput stored
            mem hstored
        | created free new cons => exact new.2
  · cases h.offerings with
    | created free new cons => exact new
    | found mem same =>
      -- an offering that was there refers to rows that were there
      obtain ⟨hmodelId, hproviderId⟩ := ht.offeringRows offering mem
      rw [h.offeringModel] at hmodelId
      rw [h.offeringProvider] at hproviderId
      have hmodel : model ∈ t.models := by
        cases h.models with
        | found mem same => exact mem
        | created free new cons => exact absurd hmodelId (Nat.not_lt.mpr new)
      have hprovider : provider ∈ t.modelProviders := by
        cases h.modelProviders with
        | found mem same => exact mem
        | created free new cons => exact absurd hproviderId (Nat.not_lt.mpr new.1)
      exact hfit.offering model hmodel h.modelName provider hprovider h.providerName offering mem
        h.offeringModel h.offeringProvider

end Resolved

/-- **What a resolved call has made.** The tenant has what was asked for exactly when the rows
that the call could find fitted. -/
theorem shadowOffering_iff {S : Services} (t : Tenant S) (ht : t.Consistent)
    (input : ShadowOfferingInput) {offering : ModelOffering} {u : Tenant S}
    (hrun : Client.Runs Tenant.serve Client.anyDelivery (shadowOffering input) t (.ok offering) u) :
    Shadowed input u ↔ RowsFit input t := by
  obtain ⟨model, credentialId, provider, hresolved⟩ :=
    ensures_shadowOffering _ _ hrun offering rfl
  have hu : u.Consistent := hrun.keeps ht fun _ q hs => hs.serve q
  exact ⟨hresolved.rowsFit ht hu, hresolved.shadowed ht⟩

/-- A key for one inherited offering. -/
def keyed (key : String) : ShadowOfferingInput :=
  ⟨"acme", "openai", "https://api.acme.example", "acme-large", none, .apiKey key, 3⟩

/-- The offering was refused, and the rollback was not answered. -/
def halfShadowed : Tenant (ledger fun _ _ => none) :=
  ((shadowOffering (keyed "k1")).exec Tenant.serve
    [.answered, .answered, .answered, .answered, .refused, .unreached]
    (Tenant.empty (S := ledger fun _ _ => none) [])).2

/-- The next attempt with the same key takes the rows that are there. -/
theorem shadowOffering_iff_retried :
    Shadowed (keyed "k1") ((shadowOffering (keyed "k1")).exec Tenant.serve [] halfShadowed).2 := by
  have hconsistent : halfShadowed.Consistent :=
    (Client.runs_exec (shadowOffering (keyed "k1"))
      [.answered, .answered, .answered, .answered, .refused, .unreached]
      (Tenant.empty (S := ledger fun _ _ => none) [])).keeps (.empty _) fun _ q hs => hs.serve q
  have hresolves : ((shadowOffering (keyed "k1")).exec Tenant.serve [] halfShadowed).1 =
      .ok ⟨4, 0, 3, 3, false⟩ := by decide +kernel
  refine (shadowOffering_iff halfShadowed hconsistent (keyed "k1")
    (hresolves ▸ Client.runs_exec _ [] _)).mpr
    ⟨by decide +kernel, fun hnone => ?_, by decide +kernel⟩
  exact absurd hnone (by decide +kernel)

/-- The first attempt stored its key, and the catalog provider was refused. -/
def keyStored : Tenant (ledger fun _ _ => none) :=
  ((shadowOffering (keyed "old")).exec Tenant.serve [.answered, .answered, .answered, .refused]
    (Tenant.empty (S := ledger fun _ _ => none) [])).2

/-- **The key of the next attempt is not stored.** The call resolves with the old one. -/
theorem shadowOffering_keeps_old_key :
    (∃ offering, ((shadowOffering (keyed "new")).exec Tenant.serve [] keyStored).1 =
      .ok offering) ∧
    ¬ Shadowed (keyed "new") ((shadowOffering (keyed "new")).exec Tenant.serve [] keyStored).2 :=
  ⟨⟨⟨4, 0, 3, 3, false⟩, by decide +kernel⟩, by decide +kernel⟩

end Workbench.Web
