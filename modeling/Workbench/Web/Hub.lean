import Workbench.Lib.Client
import Workbench.Lib.Rows
import Mathlib.Data.Int.Order.Basic

/-!
The hub as the web client sees it: the rows of one tenant, and the routes that read and write
them.

A route answers with a body, or with one of the statuses that the client tells apart. What stands
behind a route but not in the hub itself, the store of agent tokens and the servers that a
discovery reaches, is a parameter.
-/

namespace Workbench.Web

open Workbench.Lib

/-- The id of a row. The hub gives each id once. -/
abbrev Id := ℕ

/-! ### Rows -/

structure Provider where
  id : Id
  name : String
  plugin : String
  apiBaseUrl : Option String
  deriving DecidableEq, Repr

inductive McpAuthKind
  | none
  | oauth
  | token
  deriving DecidableEq, Repr

structure McpTool where
  name : String
  description : Option String
  inputSchema : String
  readOnlyHint : Option Bool
  deriving DecidableEq, Repr

/-- What `metadata.mcp` says. -/
structure StoredMcp where
  handle : String
  name : String
  url : String
  auth : McpAuthKind
  tools : List McpTool
  deriving DecidableEq, Repr

/-- The metadata of a credential, with what else stands there. -/
structure Metadata where
  agentTokenId : Option Id := none
  mcp : Option StoredMcp := none
  rest : List (String × String) := []
  deriving DecidableEq, Repr

structure Credential where
  id : Id
  providerId : Id
  name : String
  secret : String
  metadata : Metadata
  deriving DecidableEq, Repr

structure ModelRow where
  id : Id
  canonicalName : String
  displayName : Option String
  deriving DecidableEq, Repr

structure ModelProvider where
  id : Id
  name : String
  plugin : String
  baseURL : String
  credentialId : Option Id
  deriving DecidableEq, Repr

structure ModelOffering where
  id : Id
  modelId : Id
  providerId : Id
  priority : ℤ
  disabled : Bool
  deriving DecidableEq, Repr

/-- A sign-in that the hub runs. Its credential is stored when the person has completed it. -/
structure Login where
  id : Id
  resourceUrl : String
  providerId : Id
  credentialName : String
  credentialId : Option Id
  deriving DecidableEq, Repr

/-- The services behind the hub. -/
structure Services where
  Tokens : Type
  /-- mints an agent token for an asset, under a name: its id and its secret -/
  mint : Id → String → Tokens → (Id × String) × Tokens
  /-- revokes a token, if it is not revoked already -/
  revoke : Id → Tokens → Bool × Tokens
  /-- the name a token was minted under, if it is minted and not revoked -/
  live : Tokens → Id → Option String
  live_minted : ∀ a n s, live s (mint a n s).1.1 = none
  live_mint : ∀ a n s i, live (mint a n s).2 i = if i = (mint a n s).1.1 then some n else live s i
  live_revoke : ∀ i s j, live (revoke i s).2 j = if j = i then none else live s j
  /-- the catalog a server gives for a secret -/
  discover : String → Option String → Option (List McpTool)
  /-- where a person signs in for a resource -/
  authorize : String → String

/-- The names of the tokens after one more. -/
lemma join_append (tokens : List (Option String)) (name : String) (id : Id) :
    (tokens ++ [some name])[id]?.join =
      if id = tokens.length then some name else tokens[id]?.join := by
  rcases Nat.lt_trichotomy id tokens.length with h | rfl | h
  · rw [List.getElem?_append_left h, if_neg (Nat.ne_of_lt h)]
  · simp
  · rw [List.getElem?_eq_none (by simp; omega), List.getElem?_eq_none (Nat.le_of_lt h),
      if_neg (Nat.ne_of_gt h)]

/-- The names of the tokens after one less. -/
lemma join_set_none (tokens : List (Option String)) (id other : Id) :
    (tokens.set id none)[other]?.join = if other = id then none else tokens[other]?.join := by
  rw [List.getElem?_set]
  split_ifs <;> simp_all

/-- Tokens in a list, at their ids. A revoked one is `none`. -/
def ledger (discover : String → Option String → Option (List McpTool)) : Services where
  Tokens := List (Option String)
  mint _ name tokens := ((tokens.length, "token"), tokens ++ [some name])
  revoke id tokens := (tokens[id]?.join.isSome, tokens.set id none)
  live tokens id := tokens[id]?.join
  live_minted _ _ _ := congrArg Option.join (List.getElem?_eq_none (Nat.le_refl _))
  live_mint _ name tokens id := join_append tokens name id
  live_revoke id tokens other := join_set_none tokens id other
  discover := discover
  authorize url := url

/-- The rows of a tenant, newest first, and those of its ancestors that it sees. -/
structure Tenant (S : Services) where
  inherited : List Provider
  inheritedCredentials : List Credential
  tokens : S.Tokens
  providers : List Provider
  credentials : List Credential
  models : List ModelRow
  modelProviders : List ModelProvider
  offerings : List ModelOffering
  logins : List Login
  nextId : Id

/-- A tenant without rows. -/
def Tenant.empty {S : Services} (tokens : S.Tokens) : Tenant S :=
  ⟨[], [], tokens, [], [], [], [], [], [], 0⟩

/-! ### Requests -/

inductive Answer (α : Type)
  | ok (body : α)
  | notFound
  | conflict
  | failed
  deriving Repr

/-- The answer has a body. -/
def Answer.accepted {α : Type} : Answer α → Bool
  | ok _ => true
  | _ => false

lemma Answer.accepted_iff {α : Type} {answer : Answer α} :
    answer.accepted ↔ ∃ body, answer = .ok body := by
  cases answer <;> simp [accepted]

inductive Request
  | listProviders
  | createProvider (name plugin : String) (apiBaseUrl : Option String)
  | deleteProvider (id : Id)
  | listCredentials
  | createCredential (providerId : Id) (name secret : String) (metadata : Metadata)
  | patchCredential (id : Id) (metadata : Metadata)
  | deleteCredential (id : Id)
  | mintAgentToken (assetId : Id) (name : String)
  | revokeAgentToken (id : Id)
  | discover (url : String) (credentialId : Option Id)
  | startLogin (resourceUrl : String) (providerId : Id) (credentialName : String)
  | createModel (canonicalName : String) (displayName : Option String)
  | listModels
  | createModelProvider (name plugin baseURL : String) (credentialId : Id)
  | listModelProviders
  | deleteModelProvider (id : Id)
  | createOffering (modelId providerId : Id) (priority : ℤ)
  | listOfferings
  deriving DecidableEq, Repr

namespace Request

/-- What the body of an answer holds. -/
def Body : Request → Type
  | listProviders => List Provider
  | createProvider .. => Provider
  | listCredentials => List Credential
  | createCredential .. | patchCredential .. => Credential
  | mintAgentToken .. => Id × String
  | discover .. => List McpTool
  | startLogin .. => Id × String
  | createModel .. => ModelRow
  | listModels => List ModelRow
  | createModelProvider .. => ModelProvider
  | listModelProviders => List ModelProvider
  | createOffering .. => ModelOffering
  | listOfferings => List ModelOffering
  | deleteProvider _ | deleteCredential _ | revokeAgentToken _ | deleteModelProvider _ => Unit

abbrev Answers (q : Request) : Type := Answer q.Body

def writesCredential : Request → Bool
  | createCredential .. | patchCredential .. => true
  | _ => false

end Request

/-- How many rows a listing gives when the client names no number. -/
def defaultLimit : ℕ := 50

namespace Tenant

variable {S : Services}

/-- The provider rows the tenant sees: its own, and those of its ancestors whose names are not
taken. -/
def visibleProviders (t : Tenant S) : List Provider :=
  t.providers ++ t.inherited.filter fun provider =>
    t.providers.all (·.name ≠ provider.name)

/-- The tenant has used an id. -/
def bump (t : Tenant S) : Tenant S := { t with nextId := t.nextId + 1 }

def createProvider (t : Tenant S) (name plugin : String) (apiBaseUrl : Option String) :
    Answer Provider × Tenant S :=
  if t.providers.any (·.name = name) then (.conflict, t)
  else
    let row : Provider := ⟨t.nextId, name, plugin, apiBaseUrl⟩
    (.ok row, { t.bump with providers := row :: t.providers })

/-- Deleting a provider deletes the credentials on it, if none of them is in use. -/
def deleteProvider (t : Tenant S) (id : Id) : Answer Unit × Tenant S :=
  if t.providers.all (·.id ≠ id) then (.notFound, t)
  else if t.credentials.any fun credential => credential.providerId = id ∧
      t.modelProviders.any (·.credentialId = some credential.id) then (.failed, t)
  else (.ok (), { t with
    providers := t.providers.filter (·.id ≠ id)
    credentials := t.credentials.filter (·.providerId ≠ id) })

def createCredential (t : Tenant S) (providerId : Id) (name secret : String)
    (metadata : Metadata) : Answer Credential × Tenant S :=
  if (t.providers ++ t.inherited).all (·.id ≠ providerId) then (.notFound, t)
  else if t.credentials.any (·.name = name) then (.conflict, t)
  else
    let row : Credential := ⟨t.nextId, providerId, name, secret, metadata⟩
    (.ok row, { t.bump with credentials := row :: t.credentials })

def patchCredential (t : Tenant S) (id : Id) (metadata : Metadata) :
    Answer Credential × Tenant S :=
  match t.credentials.find? (·.id = id) with
  | none => (.notFound, t)
  | some row => (.ok { row with metadata := metadata }, { t with
      credentials := t.credentials.map fun credential =>
        if credential.id = id then { credential with metadata := metadata } else credential })

def deleteCredential (t : Tenant S) (id : Id) : Answer Unit × Tenant S :=
  if t.credentials.all (·.id ≠ id) then (.notFound, t)
  else if t.modelProviders.any (·.credentialId = some id) then (.conflict, t)
  else (.ok (), { t with credentials := t.credentials.filter (·.id ≠ id) })

def mintAgentToken (t : Tenant S) (assetId : Id) (name : String) :
    Answer (Id × String) × Tenant S :=
  let minted := S.mint assetId name t.tokens
  (.ok minted.1, { t with tokens := minted.2 })

def revokeAgentToken (t : Tenant S) (id : Id) : Answer Unit × Tenant S :=
  let revoked := S.revoke id t.tokens
  (if revoked.1 then .ok () else .notFound, { t with tokens := revoked.2 })

/-- The discovery sends the secret of the credential it names. -/
def discover (t : Tenant S) (url : String) (credentialId : Option Id) :
    Answer (List McpTool) × Tenant S :=
  let secret := credentialId.bind fun id => (t.credentials.find? (·.id = id)).map (·.secret)
  (match S.discover url secret with
    | some tools => .ok tools
    | none => .failed, t)

def startLogin (t : Tenant S) (resourceUrl : String) (providerId : Id)
    (credentialName : String) : Answer (Id × String) × Tenant S :=
  if (t.providers ++ t.inherited).all (·.id ≠ providerId) then (.notFound, t)
  else
    let login : Login := ⟨t.nextId, resourceUrl, providerId, credentialName, none⟩
    (.ok (login.id, S.authorize resourceUrl), { t.bump with logins := login :: t.logins })

/-- The person has signed in: the login stores its credential, as any credential is stored. -/
def completeLogin (t : Tenant S) (login : Login) (secret : String)
    (rest : List (String × String)) : Tenant S :=
  match t.createCredential login.providerId login.credentialName secret { rest := rest } with
  | (.ok row, u) => { u with logins := u.logins.map fun other =>
      if other.id = login.id then { other with credentialId := some row.id } else other }
  | (_, u) => u

def createModel (t : Tenant S) (canonicalName : String) (displayName : Option String) :
    Answer ModelRow × Tenant S :=
  if t.models.any (·.canonicalName = canonicalName) then (.conflict, t)
  else
    let row : ModelRow := ⟨t.nextId, canonicalName, displayName⟩
    (.ok row, { t.bump with models := row :: t.models })

def createModelProvider (t : Tenant S) (name plugin baseURL : String) (credentialId : Id) :
    Answer ModelProvider × Tenant S :=
  if (t.credentials ++ t.inheritedCredentials).all (·.id ≠ credentialId) then (.notFound, t)
  else if t.modelProviders.any (·.name = name) then (.conflict, t)
  else
    let row : ModelProvider := ⟨t.nextId, name, plugin, baseURL, some credentialId⟩
    (.ok row, { t.bump with modelProviders := row :: t.modelProviders })

/-- Deleting a model provider deletes the offerings that reference it. -/
def deleteModelProvider (t : Tenant S) (id : Id) : Answer Unit × Tenant S :=
  if t.modelProviders.all (·.id ≠ id) then (.notFound, t)
  else (.ok (), { t with
    modelProviders := t.modelProviders.filter (·.id ≠ id)
    offerings := t.offerings.filter (·.providerId ≠ id) })

def createOffering (t : Tenant S) (modelId providerId : Id) (priority : ℤ) :
    Answer ModelOffering × Tenant S :=
  if t.models.all (·.id ≠ modelId) then (.notFound, t)
  else if t.modelProviders.all (·.id ≠ providerId) then (.notFound, t)
  else if t.offerings.any fun o => o.modelId = modelId ∧ o.providerId = providerId then
    (.conflict, t)
  else
    let row : ModelOffering := ⟨t.nextId, modelId, providerId, priority, false⟩
    (.ok row, { t.bump with offerings := row :: t.offerings })

/-- The routes. -/
def serve : (q : Request) → Tenant S → q.Answers × Tenant S
  | .listProviders, t => (.ok t.visibleProviders, t)
  | .createProvider name plugin apiBaseUrl, t => t.createProvider name plugin apiBaseUrl
  | .deleteProvider id, t => t.deleteProvider id
  | .listCredentials, t => (.ok (t.credentials.take defaultLimit), t)
  | .createCredential providerId name secret metadata, t =>
    t.createCredential providerId name secret metadata
  | .patchCredential id metadata, t => t.patchCredential id metadata
  | .deleteCredential id, t => t.deleteCredential id
  | .mintAgentToken assetId name, t => t.mintAgentToken assetId name
  | .revokeAgentToken id, t => t.revokeAgentToken id
  | .discover url credentialId, t => t.discover url credentialId
  | .startLogin resourceUrl providerId credentialName, t =>
    t.startLogin resourceUrl providerId credentialName
  | .createModel canonicalName displayName, t => t.createModel canonicalName displayName
  | .listModels, t => (.ok (t.models.take defaultLimit), t)
  | .createModelProvider name plugin baseURL credentialId, t =>
    t.createModelProvider name plugin baseURL credentialId
  | .listModelProviders, t => (.ok (t.modelProviders.take defaultLimit), t)
  | .deleteModelProvider id, t => t.deleteModelProvider id
  | .createOffering modelId providerId priority, t => t.createOffering modelId providerId priority
  | .listOfferings, t => (.ok (t.offerings.take defaultLimit), t)

end Tenant

/-! ### What the tables keep -/

namespace Tenant

variable {S : Services}

/-- The constraints of the tables: ids are given once, and the names in a tenant are distinct. -/
structure Consistent (t : Tenant S) : Prop where
  inherited : ∀ provider ∈ t.inherited, provider.id < t.nextId
  inheritedIds : (t.inherited.map Provider.id).Nodup
  apart : ∀ own ∈ t.providers, ∀ provider ∈ t.inherited, own.id ≠ provider.id
  providers : Rows Provider.id Provider.name t.nextId t.providers
  credentials : Rows Credential.id Credential.name t.nextId t.credentials
  models : Rows ModelRow.id ModelRow.canonicalName t.nextId t.models
  modelProviders : Rows ModelProvider.id ModelProvider.name t.nextId t.modelProviders
  offerings : Rows ModelOffering.id (fun o => (o.modelId, o.providerId)) t.nextId t.offerings
  logins : Rows Login.id Login.id t.nextId t.logins
  inheritedCredentials : ∀ credential ∈ t.inheritedCredentials, credential.id < t.nextId
  credentialProvider : ∀ credential ∈ t.credentials, credential.providerId < t.nextId
  loginProvider : ∀ login ∈ t.logins, login.providerId < t.nextId
  modelProviderCredential : ∀ provider ∈ t.modelProviders, ∀ id,
    provider.credentialId = some id → id < t.nextId
  credentialsApart : ∀ own ∈ t.credentials, ∀ credential ∈ t.inheritedCredentials,
    own.id ≠ credential.id
  offeringRows : ∀ offering ∈ t.offerings,
    offering.modelId < t.nextId ∧ offering.providerId < t.nextId

variable {t : Tenant S}

lemma Consistent.empty (tokens : S.Tokens) : (Tenant.empty tokens).Consistent where
  inherited := by simp [Tenant.empty]
  inheritedIds := by simp [Tenant.empty]
  apart := by simp [Tenant.empty]
  providers := .nil
  credentials := .nil
  models := .nil
  modelProviders := .nil
  offerings := .nil
  logins := .nil
  inheritedCredentials := by simp [Tenant.empty]
  credentialProvider := by simp [Tenant.empty]
  loginProvider := by simp [Tenant.empty]
  modelProviderCredential := by simp [Tenant.empty]
  credentialsApart := by simp [Tenant.empty]
  offeringRows := by simp [Tenant.empty]

lemma Consistent.bump (h : t.Consistent) : t.bump.Consistent where
  inherited provider hp := Nat.lt_succ_of_lt (h.inherited provider hp)
  inheritedIds := h.inheritedIds
  apart := h.apart
  providers := h.providers.mono (Nat.le_succ _)
  credentials := h.credentials.mono (Nat.le_succ _)
  models := h.models.mono (Nat.le_succ _)
  modelProviders := h.modelProviders.mono (Nat.le_succ _)
  offerings := h.offerings.mono (Nat.le_succ _)
  logins := h.logins.mono (Nat.le_succ _)
  inheritedCredentials credential hc := Nat.lt_succ_of_lt (h.inheritedCredentials credential hc)
  credentialProvider credential hc := Nat.lt_succ_of_lt (h.credentialProvider credential hc)
  loginProvider login hl := Nat.lt_succ_of_lt (h.loginProvider login hl)
  modelProviderCredential provider hp id hid :=
    Nat.lt_succ_of_lt (h.modelProviderCredential provider hp id hid)
  credentialsApart := h.credentialsApart
  offeringRows offering ho :=
    ⟨Nat.lt_succ_of_lt (h.offeringRows offering ho).1,
      Nat.lt_succ_of_lt (h.offeringRows offering ho).2⟩

lemma Consistent.provider_lt (h : t.Consistent) {id : Id}
    (hid : ¬ (t.providers ++ t.inherited).all (·.id ≠ id) = true) : id < t.nextId := by
  simp only [List.all_eq_true, decide_eq_true_eq, not_forall, not_not] at hid
  obtain ⟨provider, hmem, rfl⟩ := hid
  rcases List.mem_append.mp hmem with hown | hinherited
  · exact h.providers.below provider hown
  · exact h.inherited provider hinherited

lemma Consistent.credential_lt (h : t.Consistent) {id : Id}
    (hid : ¬ (t.credentials ++ t.inheritedCredentials).all (·.id ≠ id) = true) :
    id < t.nextId := by
  simp only [List.all_eq_true, decide_eq_true_eq, not_forall, not_not] at hid
  obtain ⟨credential, hmem, rfl⟩ := hid
  rcases List.mem_append.mp hmem with hown | hinherited
  · exact h.credentials.below credential hown
  · exact h.inheritedCredentials credential hinherited

lemma Consistent.createCredential (h : t.Consistent) (providerId : Id) (name secret : String)
    (metadata : Metadata) : (t.createCredential providerId name secret metadata).2.Consistent := by
  unfold Tenant.createCredential
  split_ifs with hprovider hname
  · exact h
  · exact h
  · refine { h.bump with
      credentials := h.credentials.cons rfl (by simpa using hname)
      credentialProvider := ?_
      credentialsApart := ?_ }
    · intro credential hc
      rcases List.mem_cons.mp hc with rfl | hc
      · exact Nat.lt_succ_of_lt (h.provider_lt hprovider)
      · exact h.bump.credentialProvider credential hc
    · intro own hown credential hc
      rcases List.mem_cons.mp hown with rfl | hown
      · exact Nat.ne_of_gt (h.inheritedCredentials credential hc)
      · exact h.credentialsApart own hown credential hc

/-- **Every route keeps the constraints.** -/
theorem Consistent.serve (h : t.Consistent) (q : Request) : (t.serve q).2.Consistent := by
  have hb := h.bump
  cases q with
  | listProviders | listCredentials | discover | listModels | listModelProviders | listOfferings =>
    exact h
  | mintAgentToken assetId name | revokeAgentToken id => exact { h with }
  | createProvider name plugin apiBaseUrl =>
    simp only [Tenant.serve, createProvider]
    split_ifs with hname
    · exact h
    · refine { hb with apart := ?_, providers := h.providers.cons rfl (by simpa using hname) }
      intro own hown provider hprovider
      rcases List.mem_cons.mp hown with rfl | hown
      · exact Nat.ne_of_gt (h.inherited provider hprovider)
      · exact h.apart own hown provider hprovider
  | deleteProvider id =>
    simp only [Tenant.serve, deleteProvider]
    split_ifs
    · exact h
    · exact h
    · exact { h with
        apart := fun own hown => h.apart own (List.mem_of_mem_filter hown)
        providers := h.providers.filter _
        credentials := h.credentials.filter _
        credentialProvider := fun c hc => h.credentialProvider c (List.mem_of_mem_filter hc)
        credentialsApart := fun c hc => h.credentialsApart c (List.mem_of_mem_filter hc) }
  | createCredential providerId name secret metadata =>
    exact h.createCredential providerId name secret metadata
  | patchCredential id metadata =>
    simp only [Tenant.serve, patchCredential]
    cases t.credentials.find? (·.id = id) with
    | none => exact h
    | some row =>
      refine { h with
        credentials := h.credentials.map (fun row => ?_) fun row => ?_
        credentialProvider := fun credential hc => ?_
        credentialsApart := fun credential hc => ?_ }
      · split <;> rfl
      · split <;> rfl
      · obtain ⟨row, hrow, rfl⟩ := List.mem_map.mp hc
        have := h.credentialProvider row hrow
        split <;> exact this
      · obtain ⟨row, hrow, rfl⟩ := List.mem_map.mp hc
        have hid :
            (if row.id = id then { row with metadata := metadata } else row).id = row.id := by
          split <;> rfl
        rw [hid]
        exact h.credentialsApart row hrow
  | deleteCredential id =>
    simp only [Tenant.serve, deleteCredential]
    split_ifs
    · exact h
    · exact h
    · exact { h with
        credentials := h.credentials.filter _
        credentialProvider := fun c hc => h.credentialProvider c (List.mem_of_mem_filter hc)
        credentialsApart := fun c hc => h.credentialsApart c (List.mem_of_mem_filter hc) }
  | startLogin resourceUrl providerId credentialName =>
    simp only [Tenant.serve, startLogin]
    split_ifs with hprovider
    · exact h
    · refine { hb with
        logins := h.logins.cons rfl ?_
        loginProvider := fun login hl => ?_ }
      · intro hmem
        obtain ⟨login, hl, hid⟩ := List.mem_map.mp hmem
        exact absurd hid (Nat.ne_of_lt (h.logins.below login hl))
      · rcases List.mem_cons.mp hl with rfl | hl
        · exact Nat.lt_succ_of_lt (h.provider_lt hprovider)
        · exact hb.loginProvider login hl
  | createModel canonicalName displayName =>
    simp only [Tenant.serve, Tenant.createModel]
    split_ifs with hname
    · exact h
    · exact { hb with models := h.models.cons rfl (by simpa using hname) }
  | createModelProvider name plugin baseURL credentialId =>
    simp only [Tenant.serve, createModelProvider]
    split_ifs with hcredential hname
    · exact h
    · exact h
    · refine { hb with
        modelProviders := h.modelProviders.cons rfl (by simpa using hname)
        modelProviderCredential := fun provider hp id hid => ?_ }
      rcases List.mem_cons.mp hp with rfl | hp
      · cases hid
        exact Nat.lt_succ_of_lt (h.credential_lt hcredential)
      · exact hb.modelProviderCredential provider hp id hid
  | deleteModelProvider id =>
    simp only [Tenant.serve, deleteModelProvider]
    split_ifs
    · exact h
    · exact { h with
        modelProviders := h.modelProviders.filter _
        offerings := h.offerings.filter _
        modelProviderCredential := fun provider hp =>
          h.modelProviderCredential provider (List.mem_of_mem_filter hp)
        offeringRows := fun offering ho => h.offeringRows offering (List.mem_of_mem_filter ho) }
  | createOffering modelId providerId priority =>
    simp only [Tenant.serve, createOffering]
    split_ifs with hmodel hprovider hpair
    · exact h
    · exact h
    · exact h
    · refine { hb with
        offerings := h.offerings.cons rfl (by simpa using hpair)
        offeringRows := fun offering ho => ?_ }
      rcases List.mem_cons.mp ho with rfl | ho
      · simp only [List.all_eq_true, decide_eq_true_eq, not_forall, not_not] at hmodel hprovider
        obtain ⟨model, hm, rfl⟩ := hmodel
        obtain ⟨provider, hp, rfl⟩ := hprovider
        exact ⟨Nat.lt_succ_of_lt (h.models.below model hm),
          Nat.lt_succ_of_lt (h.modelProviders.below provider hp)⟩
      · exact hb.offeringRows offering ho

end Tenant

/-! ### What a route does -/

namespace Tenant

variable {S : Services} {t : Tenant S}

/-- A provider row is known by its id, own or inherited. -/
lemma Consistent.provider_eq (h : t.Consistent) {row other : Provider}
    (hrow : row ∈ t.providers ++ t.inherited) (hother : other ∈ t.providers ++ t.inherited)
    (hid : row.id = other.id) : row = other := by
  rcases List.mem_append.mp hrow with hrow | hrow <;>
    rcases List.mem_append.mp hother with hother | hother
  · exact h.providers.eq_of_id hrow hother hid
  · exact absurd hid (h.apart row hrow other hother)
  · exact absurd hid.symm (h.apart other hother row hrow)
  · exact List.inj_on_of_nodup_map h.inheritedIds hrow hother hid

lemma mem_of_mem_visibleProviders {provider : Provider} (h : provider ∈ t.visibleProviders) :
    provider ∈ t.providers ++ t.inherited := by
  rcases List.mem_append.mp h with h | h
  · exact List.mem_append_left _ h
  · exact List.mem_append_right _ (List.mem_of_mem_filter h)

/-- A provider whose name is free is created. -/
lemma createProvider_free {name : String} (h : ∀ provider ∈ t.providers, provider.name ≠ name)
    (plugin : String) (apiBaseUrl : Option String) :
    t.createProvider name plugin apiBaseUrl = (.ok ⟨t.nextId, name, plugin, apiBaseUrl⟩,
      { t.bump with providers := ⟨t.nextId, name, plugin, apiBaseUrl⟩ :: t.providers }) := by
  rw [createProvider, if_neg]
  simpa using h

lemma createProvider_ok {name plugin : String} {apiBaseUrl : Option String} {row : Provider}
    (h : (t.createProvider name plugin apiBaseUrl).1 = .ok row) :
    row = ⟨t.nextId, name, plugin, apiBaseUrl⟩ ∧
      (t.createProvider name plugin apiBaseUrl).2 =
        { t.bump with providers := row :: t.providers } := by
  unfold createProvider at h ⊢
  split_ifs at h ⊢
  cases h
  exact ⟨rfl, rfl⟩

lemma createCredential_ok {providerId : Id} {name secret : String} {metadata : Metadata}
    {row : Credential} (h : (t.createCredential providerId name secret metadata).1 = .ok row) :
    row = ⟨t.nextId, providerId, name, secret, metadata⟩ ∧
      (t.createCredential providerId name secret metadata).2 =
        { t.bump with credentials := row :: t.credentials } := by
  unfold createCredential at h ⊢
  split_ifs at h ⊢
  cases h
  exact ⟨rfl, rfl⟩

lemma createCredential_free {providerId : Id} {name secret : String} {metadata : Metadata}
    {row : Credential} (h : (t.createCredential providerId name secret metadata).1 = .ok row) :
    ∀ other ∈ t.credentials, other.name ≠ name := by
  unfold createCredential at h
  split_ifs at h with hprovider hname
  simpa using hname

/-- A credential that is not accepted is not stored. -/
lemma createCredential_refused {providerId : Id} {name secret : String} {metadata : Metadata}
    (h : (t.createCredential providerId name secret metadata).1.accepted = false) :
    (t.createCredential providerId name secret metadata).2 = t := by
  unfold createCredential at h ⊢
  split_ifs at h ⊢
  · rfl
  · rfl
  · cases h

lemma createModel_ok {canonicalName : String} {displayName : Option String} {row : ModelRow}
    (h : (t.createModel canonicalName displayName).1 = .ok row) :
    row = ⟨t.nextId, canonicalName, displayName⟩ ∧
      (∀ other ∈ t.models, other.canonicalName ≠ canonicalName) ∧
      (t.createModel canonicalName displayName).2 = { t.bump with models := row :: t.models } := by
  unfold createModel at h ⊢
  split_ifs at h ⊢ with hname
  cases h
  exact ⟨rfl, by simpa using hname, rfl⟩

lemma createModelProvider_ok {name plugin baseURL : String} {credentialId : Id}
    {row : ModelProvider}
    (h : (t.createModelProvider name plugin baseURL credentialId).1 = .ok row) :
    row = ⟨t.nextId, name, plugin, baseURL, some credentialId⟩ ∧
      (∀ other ∈ t.modelProviders, other.name ≠ name) ∧
      (t.createModelProvider name plugin baseURL credentialId).2 =
        { t.bump with modelProviders := row :: t.modelProviders } := by
  unfold createModelProvider at h ⊢
  split_ifs at h ⊢ with hcredential hname
  cases h
  exact ⟨rfl, by simpa using hname, rfl⟩

lemma createOffering_ok {modelId providerId : Id} {priority : ℤ} {row : ModelOffering}
    (h : (t.createOffering modelId providerId priority).1 = .ok row) :
    row = ⟨t.nextId, modelId, providerId, priority, false⟩ ∧
      (∀ other ∈ t.offerings, (other.modelId, other.providerId) ≠ (modelId, providerId)) ∧
      (t.createOffering modelId providerId priority).2 =
        { t.bump with offerings := row :: t.offerings } := by
  unfold createOffering at h ⊢
  split_ifs at h ⊢ with hmodel hprovider hpair
  cases h
  refine ⟨rfl, fun other hother heq => hpair ?_, rfl⟩
  obtain ⟨hm, hp⟩ := Prod.mk.inj heq
  exact List.any_eq_true.mpr ⟨other, hother, by simpa using ⟨hm, hp⟩⟩

/-- A conflict changes nothing. -/
lemma serve_conflict {q : Request} (h : (t.serve q).1 = .conflict) : (t.serve q).2 = t := by
  cases q with
  | listProviders | listCredentials | listModels | listModelProviders | listOfferings
  | mintAgentToken => cases h
  | revokeAgentToken id =>
    simp only [serve, revokeAgentToken] at h
    split at h <;> cases h
  | discover => rfl
  | createProvider name plugin apiBaseUrl =>
    simp only [serve, createProvider] at h ⊢
    split_ifs at h ⊢
    rfl
  | deleteProvider id =>
    simp only [serve, deleteProvider] at h ⊢
    split_ifs at h ⊢
  | createCredential providerId name secret metadata =>
    simp only [serve, createCredential] at h ⊢
    split_ifs at h ⊢
    rfl
  | patchCredential id metadata =>
    simp only [serve, patchCredential] at h ⊢
    cases hfind : t.credentials.find? (·.id = id) with
    | none => rfl
    | some found =>
      rw [hfind] at h
      cases h
  | deleteCredential id =>
    simp only [serve, deleteCredential] at h ⊢
    split_ifs at h ⊢
    rfl
  | startLogin resourceUrl providerId credentialName =>
    simp only [serve, startLogin] at h ⊢
    split_ifs at h ⊢
  | createModel canonicalName displayName =>
    simp only [serve, createModel] at h ⊢
    split_ifs at h ⊢
    rfl
  | createModelProvider name plugin baseURL credentialId =>
    simp only [serve, createModelProvider] at h ⊢
    split_ifs at h ⊢
    rfl
  | deleteModelProvider id =>
    simp only [serve, deleteModelProvider] at h ⊢
    split_ifs at h ⊢
  | createOffering modelId providerId priority =>
    simp only [serve, createOffering] at h ⊢
    split_ifs at h ⊢
    rfl

lemma startLogin_ok {resourceUrl : String} {providerId : Id} {credentialName : String}
    {started : Id × String}
    (h : (t.startLogin resourceUrl providerId credentialName).1 = .ok started) :
    started.1 = t.nextId ∧ (t.startLogin resourceUrl providerId credentialName).2 = { t.bump with
      logins := ⟨t.nextId, resourceUrl, providerId, credentialName, none⟩ :: t.logins } := by
  unfold startLogin at h ⊢
  split_ifs at h ⊢
  cases h
  exact ⟨rfl, rfl⟩

lemma startLogin_rows (resourceUrl : String) (providerId : Id) (credentialName : String) :
    (t.startLogin resourceUrl providerId credentialName).2.providers = t.providers ∧
      (t.startLogin resourceUrl providerId credentialName).2.credentials = t.credentials := by
  unfold startLogin
  split_ifs <;> exact ⟨rfl, rfl⟩

/-- A login stores its credential, and then it names it. -/
lemma completeLogin_cases (t : Tenant S) (login : Login) (secret : String)
    (rest : List (String × String)) :
    t.completeLogin login secret rest = t ∨
      ∃ row, (t.createCredential login.providerId login.credentialName secret
          { rest := rest }).1 = .ok row ∧
        t.completeLogin login secret rest = { t.bump with
          credentials := row :: t.credentials
          logins := t.logins.map fun other =>
            if other.id = login.id then { other with credentialId := some row.id }
            else other } := by
  have hrefused :=
    @createCredential_refused S t login.providerId login.credentialName secret { rest := rest }
  have hok := @createCredential_ok S t login.providerId login.credentialName secret { rest := rest }
  unfold completeLogin
  generalize t.createCredential login.providerId login.credentialName secret
    { rest := rest } = created at hrefused hok ⊢
  obtain ⟨answer, u⟩ := created
  cases answer with
  | ok row =>
    obtain rfl : u = _ := (hok rfl).2
    exact .inr ⟨row, rfl, rfl⟩
  | notFound => exact .inl (hrefused rfl)
  | conflict => exact .inl (hrefused rfl)
  | failed => exact .inl (hrefused rfl)

/-- A login that was not completed before and has a credential now has stored it. -/
lemma completeLogin_stored {login : Login} {secret : String} {rest : List (String × String)}
    {c : Id} (hnone : ∀ other ∈ t.logins, other.id = login.id → other.credentialId = none)
    (hsome : ∃ other ∈ (t.completeLogin login secret rest).logins,
      other.id = login.id ∧ other.credentialId = some c) :
    ∃ row, (t.createCredential login.providerId login.credentialName secret
        { rest := rest }).1 = .ok row ∧ row.id = c ∧
      ∃ logins, t.completeLogin login secret rest =
        { t.bump with credentials := row :: t.credentials, logins := logins } := by
  obtain ⟨other, hother, hid, hc⟩ := hsome
  rcases t.completeLogin_cases login secret rest with hsame | ⟨row, hrow, hafter⟩
  · rw [hsame] at hother
    rw [hnone other hother hid] at hc
    cases hc
  · rw [hafter] at hother ⊢
    obtain ⟨before, -, rfl⟩ := List.mem_map.mp hother
    refine ⟨row, hrow, ?_, _, rfl⟩
    by_cases heq : before.id = login.id
    · rw [if_pos heq] at hc
      exact Option.some.inj hc
    · rw [if_neg heq] at hid
      exact absurd hid heq

/-- A credential that is stored can be patched. -/
lemma patchCredential_stored {id : Id} (h : ∃ row ∈ t.credentials, row.id = id)
    (metadata : Metadata) : (∃ row, (t.patchCredential id metadata).1 = .ok row) ∧
      (t.patchCredential id metadata).2 = { t with
        credentials := t.credentials.map fun credential =>
          if credential.id = id then { credential with metadata := metadata }
          else credential } := by
  obtain ⟨row, hrow, hid⟩ := h
  have hfind : (t.credentials.find? (·.id = id)).isSome := by
    rw [List.find?_isSome]
    exact ⟨row, hrow, by simpa using hid⟩
  obtain ⟨found, hfind⟩ := Option.isSome_iff_exists.mp hfind
  rw [patchCredential, hfind]
  exact ⟨⟨_, rfl⟩, rfl⟩

end Tenant

/-! ### What requests change of the rows that are there -/

namespace Tenant

variable {S : Services} {t u v : Tenant S}

/-- From `t` to `u`: ids are given out in order, and a credential keeps its name. -/
structure Grows (t u : Tenant S) : Prop where
  nextId : t.nextId ≤ u.nextId
  names : ∀ row ∈ u.credentials, row.id < t.nextId →
    ∃ old ∈ t.credentials, old.id = row.id ∧ old.name = row.name

lemma Grows.refl (t : Tenant S) : Grows t t :=
  ⟨(Nat.le_refl _), fun row hrow _ => ⟨row, hrow, rfl, rfl⟩⟩

lemma Grows.trans (h : Grows t u) (h' : Grows u v) : Grows t v := by
  refine ⟨Nat.le_trans h.nextId h'.nextId, fun row hrow hlt => ?_⟩
  obtain ⟨old, hold, hid, hname⟩ := h'.names row hrow (Nat.lt_of_lt_of_le hlt h.nextId)
  obtain ⟨older, holder, hid', hname'⟩ := h.names old hold (hid ▸ hlt)
  exact ⟨older, holder, hid'.trans hid, hname'.trans hname⟩

/-- No credential is new. -/
lemma Grows.of_subset (hnext : t.nextId ≤ u.nextId)
    (hrows : ∀ row ∈ u.credentials, row ∈ t.credentials) : Grows t u :=
  ⟨hnext, fun row hrow _ => ⟨row, hrows row hrow, rfl, rfl⟩⟩

/-- A request that stores or patches no credential. -/
lemma credentials_subset {q : Request} (hq : q.writesCredential = false) :
    t.nextId ≤ (t.serve q).2.nextId ∧ ∀ row ∈ (t.serve q).2.credentials, row ∈ t.credentials := by
  have hsame : t.nextId ≤ t.nextId ∧ ∀ row ∈ t.credentials, row ∈ t.credentials :=
    ⟨Nat.le_refl _, fun _ hrow => hrow⟩
  have hbump : t.nextId ≤ t.bump.nextId ∧ ∀ row ∈ t.credentials, row ∈ t.credentials :=
    ⟨Nat.le_succ _, fun _ hrow => hrow⟩
  cases q with
  | createCredential | patchCredential => cases hq
  | deleteProvider id =>
    simp only [serve, deleteProvider]
    split_ifs
    · exact hsame
    · exact hsame
    · exact ⟨Nat.le_refl _, fun row hrow => List.mem_of_mem_filter hrow⟩
  | deleteCredential id =>
    simp only [serve, deleteCredential]
    split_ifs
    · exact hsame
    · exact hsame
    · exact ⟨Nat.le_refl _, fun row hrow => List.mem_of_mem_filter hrow⟩
  | createProvider name plugin apiBaseUrl =>
    simp only [serve, createProvider]
    split_ifs
    exacts [hsame, hbump]
  | startLogin resourceUrl providerId credentialName =>
    simp only [serve, startLogin]
    split_ifs
    exacts [hsame, hbump]
  | createModel canonicalName displayName =>
    simp only [serve, createModel]
    split_ifs
    exacts [hsame, hbump]
  | createModelProvider name plugin baseURL credentialId =>
    simp only [serve, createModelProvider]
    split_ifs
    exacts [hsame, hsame, hbump]
  | deleteModelProvider id =>
    simp only [serve, deleteModelProvider]
    split_ifs
    exacts [hsame, hsame]
  | createOffering modelId providerId priority =>
    simp only [serve, createOffering]
    split_ifs
    exacts [hsame, hsame, hsame, hbump]
  | listProviders | listCredentials | discover | listModels | listModelProviders | listOfferings
  | mintAgentToken | revokeAgentToken => exact hsame

lemma Grows.of_reads {q : Request} (hq : q.writesCredential = false) : Grows t (t.serve q).2 :=
  .of_subset (credentials_subset hq).1 (credentials_subset hq).2

lemma grows_serve (t : Tenant S) (q : Request) : Grows t (t.serve q).2 := by
  cases q with
  | createCredential providerId name secret metadata =>
    simp only [serve, createCredential]
    split_ifs
    · exact .refl t
    · exact .refl t
    · refine ⟨Nat.le_succ _, fun row hrow hlt => ?_⟩
      rcases List.mem_cons.mp hrow with rfl | hrow
      · exact absurd hlt (Nat.lt_irrefl _)
      · exact ⟨row, hrow, rfl, rfl⟩
  | patchCredential id metadata =>
    simp only [serve, patchCredential]
    cases t.credentials.find? (·.id = id) with
    | none => exact .refl t
    | some found =>
      refine ⟨Nat.le_refl _, fun row hrow _ => ?_⟩
      obtain ⟨old, hold, rfl⟩ := List.mem_map.mp hrow
      refine ⟨old, hold, ?_⟩
      split <;> exact ⟨rfl, rfl⟩
  | _ => exact .of_reads rfl

end Tenant

/-! ### Requests of the client -/

/-- A program of the web client. -/
abbrev Call (α : Type) := Client Request.Answers String α

/-- What `fetch` throws when no answer comes. -/
def networkError : String := "Failed to fetch"

/-- A request that must be answered with a body. -/
def request (q : Request) (otherwise : String) : Call q.Body :=
  .ask q fun
    | .answered (.ok body) => .done (.ok body)
    | .threw => .fail networkError
    | _ => .fail otherwise

section Rules

variable {S : Services} {G : Tenant S → Request → Delivery → Prop} {t : Tenant S} {q : Request}
  {otherwise : String}

/-- A request: what must hold when it is answered with a body, and what in every other case. -/
lemma ensures_request {post : Except String q.Body → Tenant S → Prop} {I : Tenant S → Prop}
    (before : (∃ d, G t q d ∧ d.lands = false) → I t)
    (lost : G t q .lost → I (Tenant.serve q t).2)
    (failed : G t q .answered → (∀ body, (Tenant.serve q t).1 ≠ .ok body) →
      I (Tenant.serve q t).2)
    (ok : ∀ body, G t q .answered → (Tenant.serve q t).1 = .ok body →
      post (.ok body) (Tenant.serve q t).2)
    (error : ∀ message u, I u → post (.error message) u) :
    Client.Ensures Tenant.serve G (request q otherwise) post t := by
  rw [request, Client.ensures_ask]
  intro d hd
  cases d with
  | answered =>
    cases hanswer : (Tenant.serve q t).1 with
    | ok body =>
      rw [Client.deliver, hanswer, Client.ensures_done]
      exact ok body hd hanswer
    | _ =>
      rw [Client.deliver, hanswer, Client.ensures_done]
      exact error _ _ (failed hd fun body hbody => by rw [hanswer] at hbody; cases hbody)
  | refused => exact (Client.ensures_done _).mpr (error _ _ (before ⟨_, hd, rfl⟩))
  | unreached => exact (Client.ensures_done _).mpr (error _ _ (before ⟨_, hd, rfl⟩))
  | lost => exact (Client.ensures_done _).mpr (error _ _ (lost hd))

/-- A request whose failure, wherever it happens, leaves what is wanted. -/
lemma ensures_request_keeps {post : Except String q.Body → Tenant S → Prop}
    {I : Tenant S → Prop} (before : I t) (after : I (Tenant.serve q t).2)
    (ok : ∀ body, G t q .answered → (Tenant.serve q t).1 = .ok body →
      post (.ok body) (Tenant.serve q t).2)
    (error : ∀ message u, I u → post (.error message) u) :
    Client.Ensures Tenant.serve G (request q otherwise) post t :=
  ensures_request (fun _ => before) (fun _ => after) (fun _ _ => after) ok error

/-- A request and the guard: what must hold when it is answered with a body, and in every other
case. -/
lemma decides_request {verdict : Except String q.Body → Tenant S → Prop → Prop}
    (before : ∀ d message, d.lands = false → verdict (.error message) t (G t q d))
    (lost : ∀ message, verdict (.error message) (Tenant.serve q t).2 (G t q .lost))
    (failed : ∀ message, (∀ body, (Tenant.serve q t).1 ≠ .ok body) →
      verdict (.error message) (Tenant.serve q t).2 (G t q .answered))
    (ok : ∀ body, (Tenant.serve q t).1 = .ok body →
      verdict (.ok body) (Tenant.serve q t).2 (G t q .answered)) :
    Client.Decides Tenant.serve G (request q otherwise) verdict t := by
  rw [request, Client.decides_ask]
  intro d
  cases d with
  | answered =>
    cases hanswer : (Tenant.serve q t).1 with
    | ok body =>
      rw [Client.deliver, hanswer, Client.decides_done, and_true]
      exact ok body hanswer
    | _ =>
      rw [Client.deliver, hanswer, Client.decides_done, and_true]
      exact failed _ fun body hbody => by rw [hanswer] at hbody; cases hbody
  | refused =>
    rw [Client.deliver, Client.decides_done, and_true]
    exact before _ _ rfl
  | unreached =>
    rw [Client.deliver, Client.decides_done, and_true]
    exact before _ _ rfl
  | lost =>
    rw [Client.deliver, Client.decides_done, and_true]
    exact lost _

end Rules

end Workbench.Web
