import Workbench.Web.Hub

/-!
The credential with which a deployed agent calls the hub back, and its replacement.

A token is minted in one request and stored in another; what is stored names the token, so that
the next call revokes it.
-/

namespace Workbench.Web

open Workbench.Lib

def hubProviderName : String := "workbench-hub"

def hubProviderPlugin : String := "http-raw-authorization"

def agentHubCredentialName (workflowId : String) : String := workflowId ++ "-hub"

def ensureHubProvider (origin : String) : Call Id := do
  let providers : List Provider ←
    request .listProviders "listing this workbench's providers failed"
  match providers.find? (·.name = hubProviderName) with
  | some existing => pure existing.id
  | none =>
    let created : Provider ←
      request (.createProvider hubProviderName hubProviderPlugin (some origin))
        "preparing this workbench's hub provider failed"
    pure created.id

/-- The bearer of a credential is revoked before the row that names it is dropped. -/
def revokePrior : Option Id → Call Unit
  | none => pure ()
  | some priorTokenId => .ask (.revokeAgentToken priorTokenId) fun
    | .answered (.ok _) | .answered .notFound => pure ()
    | .threw => .fail networkError
    | _ => .fail "revoking this agent's previous hub token failed"

def dropPrior : List Credential → Call Unit
  | [] => pure ()
  | credential :: rest => do
    revokePrior credential.metadata.agentTokenId
    request (.deleteCredential credential.id) "replacing this agent's hub credential failed"
    dropPrior rest

def mintAndStore (providerId : Id) (credentialName : String) (assetId : Id) : Call Id := do
  let token : Id × String ←
    request (.mintAgentToken assetId credentialName) "minting this agent's hub token failed"
  let stored : Credential ←
    request (.createCredential providerId credentialName ("Bearer " ++ token.2)
      { agentTokenId := some token.1 }) "storing this agent's hub token failed"
  pure stored.id

def ensureAgentHubCredential (origin definitionId : String) (assetId : Id) : Call Id := do
  let providerId ← ensureHubProvider origin
  let page : List Credential ←
    request .listCredentials "listing this workbench's credentials failed"
  dropPrior (page.filter (·.name = agentHubCredentialName definitionId))
  mintAndStore providerId (agentHubCredentialName definitionId) assetId

/-! ### What a call leaves -/

variable {S : Services} {t u : Tenant S} {name : String}

/-- Every live token of the agent is named by a stored credential of the agent. -/
def Tidy (name : String) (t : Tenant S) : Prop :=
  ∀ token, S.live t.tokens token = some name →
    ∃ credential ∈ t.credentials, credential.name = name ∧
      credential.metadata.agentTokenId = some token

/-- The answer of a mint is not lost, and what is minted is stored. -/
def StoresMinted (name : String) (t : Tenant S) : Request → Delivery → Prop
  | .mintAgentToken _ n, d => n = name → d ≠ .lost
  | .createCredential providerId n secret metadata, d => n = name →
      d.lands ∧ (t.createCredential providerId n secret metadata).1.accepted
  | _, _ => True

instance (name : String) (t : Tenant S) (q : Request) (d : Delivery) :
    Decidable (StoresMinted name t q d) :=
  match q with
  | .mintAgentToken _ n => inferInstanceAs (Decidable (n = name → d ≠ .lost))
  | .createCredential providerId n secret metadata => inferInstanceAs (Decidable (n = name →
      d.lands ∧ (t.createCredential providerId n secret metadata).1.accepted))
  | .listProviders | .createProvider .. | .deleteProvider _ | .listCredentials
  | .patchCredential .. | .deleteCredential _ | .revokeAgentToken _ | .discover .. | .startLogin ..
  | .createModel .. | .listModels | .createModelProvider .. | .listModelProviders
  | .deleteModelProvider _ | .createOffering .. | .listOfferings => .isTrue trivial

lemma Tidy.congr (h : Tidy name t) (htokens : u.tokens = t.tokens)
    (hcredentials : u.credentials = t.credentials) : Tidy name u := by
  unfold Tidy
  rw [htokens, hcredentials]
  exact h

lemma Tidy.revoke (h : Tidy name t) (token : Id) : Tidy name (t.revokeAgentToken token).2 := by
  intro other hlive
  have hlive : S.live (S.revoke token t.tokens).2 other = some name := hlive
  rw [S.live_revoke] at hlive
  split at hlive
  · cases hlive
  · exact h other hlive

/-- A row can be dropped when the token it names is revoked. -/
lemma Tidy.delete {credential : Credential} (h : Tidy name t)
    (hrow : ∀ row ∈ t.credentials, row.id = credential.id → row = credential)
    (hrevoked : ∀ token, credential.metadata.agentTokenId = some token →
      S.live t.tokens token = none) : Tidy name (t.deleteCredential credential.id).2 := by
  unfold Tenant.deleteCredential
  split_ifs
  · exact h
  · exact h
  · intro token hlive
    obtain ⟨row, hmem, hname, htoken⟩ := h token hlive
    refine ⟨row, List.mem_filter.mpr ⟨hmem, ?_⟩, hname, htoken⟩
    have hne : row.id ≠ credential.id := by
      intro hid
      obtain rfl := hrow row hmem hid
      have hnone := hrevoked token htoken
      exact absurd (hlive.symm.trans hnone) (by simp)
    simpa using hne

lemma mem_of_mem_deleteCredential {id : Id} {row : Credential}
    (h : row ∈ (t.deleteCredential id).2.credentials) : row ∈ t.credentials := by
  unfold Tenant.deleteCredential at h
  split_ifs at h
  · exact h
  · exact h
  · exact List.mem_of_mem_filter h

/-- What is kept by a call: the constraints of the tables, and no orphan. -/
def Kept (name : String) (t : Tenant S) : Prop := t.Consistent ∧ Tidy name t

lemma ensures_ensureHubProvider {G : Tenant S → Request → Delivery → Prop} (origin : String)
    (h : Kept name t) :
    Client.Ensures Tenant.serve G (ensureHubProvider origin) (fun _ => Kept name) t := by
  have hlist : Kept name (t.serve .listProviders).2 := h
  refine (Client.ensures_bind _ _).mpr (ensures_request_keeps h hlist ?_ fun _ _ hu => hu)
  intro providers _ _
  dsimp only
  cases providers.find? (·.name = hubProviderName) with
  | some existing => exact (Client.ensures_done _).mpr hlist
  | none =>
    have hcreate : Kept name
        (t.serve (.createProvider hubProviderName hubProviderPlugin (some origin))).2 := by
      refine ⟨h.1.serve _, h.2.congr ?_ ?_⟩ <;>
        simp only [Tenant.serve, Tenant.createProvider] <;> split_ifs <;> rfl
    refine (Client.ensures_bind _ _).mpr
      (ensures_request_keeps hlist hcreate ?_ fun _ _ hu => hu)
    intro created _ _
    exact (Client.ensures_done _).mpr hcreate

/-- The rows a loop holds are the stored rows of their ids. -/
def Stored (rows : List Credential) (t : Tenant S) : Prop :=
  ∀ credential ∈ rows, ∀ row ∈ t.credentials, row.id = credential.id → row = credential

lemma ensures_revokePrior {G : Tenant S → Request → Delivery → Prop} (prior : Option Id)
    (h : Kept name t) :
    Client.Ensures Tenant.serve G (revokePrior prior) (fun result u =>
      Kept name u ∧ u.credentials = t.credentials ∧
        (result = .ok () → ∀ token, prior = some token → S.live u.tokens token = none)) t := by
  cases prior with
  | none =>
    refine (Client.ensures_done _).mpr ⟨h, rfl, ?_⟩
    rintro _ _ ⟨⟩
  | some token =>
    have hkept : Kept name (t.serve (.revokeAgentToken token)).2 :=
      ⟨h.1.serve _, h.2.revoke token⟩
    have hrevoked : S.live (t.revokeAgentToken token).2.tokens token = none := by
      have := S.live_revoke token t.tokens token
      rwa [if_pos rfl] at this
    have herror : ∀ message : String, (Except.error message : Except String Unit) = .ok () →
        ∀ other, some token = some other → ∀ v : Tenant S, S.live v.tokens other = none := by
      rintro _ ⟨⟩
    refine (Client.ensures_ask _ _).mpr fun d _ => ?_
    cases d with
    | answered =>
      have hanswer : ∃ answer : Answer Unit, (t.revokeAgentToken token).1 = answer := ⟨_, rfl⟩
      obtain ⟨answer, hanswer⟩ := hanswer
      simp only [Client.deliver, Tenant.serve, hanswer]
      cases answer with
      | ok | notFound =>
        refine (Client.ensures_done _).mpr ⟨hkept, rfl, ?_⟩
        rintro - _ ⟨⟩
        exact hrevoked
      | conflict | failed =>
        exact (Client.ensures_done _).mpr ⟨hkept, rfl, fun hok => by cases hok⟩
    | lost => exact (Client.ensures_done _).mpr ⟨hkept, rfl, fun hok => by cases hok⟩
    | refused | unreached =>
      exact (Client.ensures_done _).mpr ⟨h, rfl, fun hok => by cases hok⟩

/-- The loop keeps the tables tidy: a row goes only after the token it names. -/
lemma ensures_dropPrior {G : Tenant S → Request → Delivery → Prop} (rows : List Credential)
    (h : Kept name t) (hrows : Stored rows t) :
    Client.Ensures Tenant.serve G (dropPrior rows) (fun _ => Kept name) t := by
  induction rows generalizing t with
  | nil => exact (Client.ensures_done _).mpr h
  | cons credential rest ih =>
    refine (Client.ensures_bind _ _).mpr ((ensures_revokePrior _ h).mono ?_)
    rintro (message | ⟨⟩) u ⟨hkept, hsame, hrevoked⟩
    · exact hkept
    · have hstored : Stored (credential :: rest) u := by
        unfold Stored
        rw [hsame]
        exact hrows
      have hdelete : Kept name (u.serve (.deleteCredential credential.id)).2 :=
        ⟨hkept.1.serve _, hkept.2.delete (hstored _ List.mem_cons_self) (hrevoked rfl)⟩
      refine (Client.ensures_bind _ _).mpr
        (ensures_request_keeps hkept hdelete ?_ fun _ _ hv => hv)
      intro _ _ _
      refine ih hdelete fun other hother row hrow => ?_
      exact hstored other (List.mem_cons_of_mem _ hother) row (mem_of_mem_deleteCredential hrow)

/-- What is minted is stored, where the guard says so. -/
lemma ensures_mintAndStore (providerId assetId : Id) (h : Kept name t) :
    Client.Ensures Tenant.serve (StoresMinted name) (mintAndStore providerId name assetId)
      (fun _ => Kept name) t := by
  refine (Client.ensures_bind _ _).mpr (ensures_request (fun _ => h) (fun hd => absurd rfl (hd rfl))
    (fun _ hfailed => absurd rfl (hfailed _)) ?_ fun _ _ hu => hu)
  rintro _ - ⟨⟩
  set minted := S.mint assetId name t.tokens with hminted
  set u := (t.serve (.mintAgentToken assetId name)).2 with hu
  set stored := Request.createCredential providerId name ("Bearer " ++ minted.1.2)
    { agentTokenId := some minted.1.1 } with hstored
  have hconsistent : u.Consistent := h.1.serve _
  -- the store lands, so the row that names the token stands
  have hkept : ∀ row, (u.serve stored).1 = .ok row → Kept name (u.serve stored).2 := by
    intro row hrow
    obtain ⟨hfields, hafter⟩ := Tenant.createCredential_ok hrow
    refine ⟨hconsistent.serve _, fun token hlive => ?_⟩
    rw [hstored, Tenant.serve, hafter] at hlive ⊢
    have hlive : S.live minted.2 token = some name := hlive
    rw [hminted, S.live_mint, ← hminted] at hlive
    split at hlive
    · next heq =>
      refine ⟨row, List.mem_cons_self, ?_⟩
      rw [hfields, heq]
      exact ⟨rfl, rfl⟩
    · obtain ⟨other, hmem, hother⟩ := h.2 token hlive
      exact ⟨other, List.mem_cons_of_mem _ hmem, hother⟩
  refine (Client.ensures_bind _ _).mpr
    (ensures_request (I := Kept name) ?_ ?_ ?_ ?_ fun _ _ hv => hv)
  · rintro ⟨d, hd, hlands⟩
    exact absurd (hd rfl).1 (by simp [hlands])
  · intro hd
    obtain ⟨row, hrow⟩ := Answer.accepted_iff.1 (hd rfl).2
    exact hkept row hrow
  · intro hd hfailed
    obtain ⟨row, hrow⟩ := Answer.accepted_iff.1 (hd rfl).2
    exact absurd hrow (hfailed row)
  · intro row hd hrow
    exact (Client.ensures_done _).mpr (hkept row hrow)

lemma ensures_ensureAgentHubCredential (origin definitionId : String) (assetId : Id)
    (h : Kept (agentHubCredentialName definitionId) t) :
    Client.Ensures Tenant.serve (StoresMinted (agentHubCredentialName definitionId))
      (ensureAgentHubCredential origin definitionId assetId)
      (fun _ => Kept (agentHubCredentialName definitionId)) t := by
  refine (Client.ensures_bind _ _).mpr ((ensures_ensureHubProvider origin h).mono ?_)
  rintro (message | providerId) u hu
  · exact hu
  have hlist : Kept (agentHubCredentialName definitionId) (u.serve .listCredentials).2 := hu
  refine (Client.ensures_bind _ _).mpr
    (ensures_request_keeps hu hlist ?_ fun _ _ hv => hv)
  rintro _ - ⟨⟩
  refine (Client.ensures_bind _ _).mpr ((ensures_dropPrior _ hlist ?_).mono ?_)
  · intro credential hcredential row hrow hid
    have hmem := List.mem_of_mem_take (List.mem_of_mem_filter hcredential)
    exact hu.1.credentials.eq_of_id hrow hmem hid
  · rintro (message | ⟨⟩) v hv
    · exact hv
    · exact ensures_mintAndStore providerId assetId hv

/-- One live token of an agent is all that a tidy table has room for. -/
lemma Kept.live_unique (h : Kept name t) {token other : Id}
    (htoken : S.live t.tokens token = some name) (hother : S.live t.tokens other = some name) :
    token = other := by
  obtain ⟨row, hrow, hname, hid⟩ := h.2 token htoken
  obtain ⟨row', hrow', hname', hid'⟩ := h.2 other hother
  obtain rfl := h.1.credentials.eq_of_key hrow hrow' (hname.trans hname'.symm)
  rw [hid] at hid'
  exact Option.some.inj hid'

/-- The credential of one agent is ensured, from any origin and for any asset. -/
def EnsuresAgent (definitionId : String) (p : Call Id) : Prop :=
  ∃ origin assetId, p = ensureAgentHubCredential origin definitionId assetId

/-- **No orphan bearer.** Where each token that is minted is stored, every live token of the agent
is named by a stored credential, and there is at most one. -/
theorem no_orphan_bearer {S : Services} {s t : Tenant S} (definitionId : String)
    (hs : Kept (agentHubCredentialName definitionId) s)
    (hcalls : Client.Sequence Tenant.serve (StoresMinted (agentHubCredentialName definitionId))
      (EnsuresAgent definitionId) s t) :
    Tidy (agentHubCredentialName definitionId) t ∧ ∀ token other,
      S.live t.tokens token = some (agentHubCredentialName definitionId) →
      S.live t.tokens other = some (agentHubCredentialName definitionId) → token = other := by
  have ht : Kept (agentHubCredentialName definitionId) t := by
    refine hcalls.invariant hs ?_
    rintro p u ⟨origin, assetId, rfl⟩ hu
    exact ensures_ensureAgentHubCredential origin definitionId assetId hu
  exact ⟨ht.2, fun token other => ht.live_unique⟩

/-- A tenant without rows and tokens. -/
def freshTenant : Tenant (ledger fun _ _ => none) := Tenant.empty (S := ledger fun _ _ => none) []

/-- A call is answered; the next one loses the answer of its revoke. -/
def rotated : Tenant (ledger fun _ _ => none) :=
  ((ensureAgentHubCredential "https://hub" "agent" 7).exec Tenant.serve
    [.answered, .answered, .lost]
    ((ensureAgentHubCredential "https://hub" "agent" 7).exec Tenant.serve [] freshTenant).2).2

theorem no_orphan_bearer_rotated : Tidy (agentHubCredentialName "agent") rotated := by
  refine (no_orphan_bearer "agent" (s := freshTenant) ⟨.empty _, ?_⟩ ?_).1
  · intro token hlive
    simp [freshTenant, Tenant.empty, ledger] at hlive
  · have hfirst : (ensureAgentHubCredential "https://hub" "agent" 7).Follows Tenant.serve
        (StoresMinted (agentHubCredentialName "agent")) [] freshTenant := by decide +kernel
    have hsecond : (ensureAgentHubCredential "https://hub" "agent" 7).Follows Tenant.serve
        (StoresMinted (agentHubCredentialName "agent")) [.answered, .answered, .lost]
        ((ensureAgentHubCredential "https://hub" "agent" 7).exec
          Tenant.serve [] freshTenant).2 := by
      decide +kernel
    exact .call (.call .refl ⟨"https://hub", 7, rfl⟩ hfirst.runs) ⟨"https://hub", 7, rfl⟩
      hsecond.runs

/-- The store of the first call is refused. -/
def orphaned : Tenant (ledger fun _ _ => none) :=
  ((ensureAgentHubCredential "https://hub" "agent" 7).exec Tenant.serve
    [.answered, .answered, .answered, .answered, .refused] freshTenant).2

/-- **A token that is minted and not stored stays live.** -/
theorem orphan_bearer : Client.Sequence Tenant.serve Client.anyDelivery (EnsuresAgent "agent")
    freshTenant orphaned ∧ ¬ Tidy (agentHubCredentialName "agent") orphaned := by
  refine ⟨.call .refl ⟨"https://hub", 7, rfl⟩ (Client.runs_exec _ _ _), fun h => ?_⟩
  have hlive : (ledger fun _ _ => none).live orphaned.tokens 0 =
      some (agentHubCredentialName "agent") := by decide +kernel
  have hrows : orphaned.credentials = [] := by decide +kernel
  obtain ⟨row, hrow, -⟩ := h 0 hlive
  rw [hrows] at hrow
  cases hrow

end Workbench.Web
