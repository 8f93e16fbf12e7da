import Workbench.Web.AgentRedeploy
import Workbench.Web.DeploySource

/-!
What a redeploy leaves of the credential with which the running deployment calls the hub.

The credential is replaced before the tree that names it is pushed: its token is revoked, its row is
dropped, and another is made. Until the revoke takes effect both stand, wherever the call fails.
-/

namespace Workbench.Web

open Workbench.Lib

variable {S : Services} {row : Credential} {token : Id} {t : Tenant S}

/-- The row is stored, and the token that it names is not revoked. -/
structure Bears (row : Credential) (token : Id) (t : Tenant S) : Prop where
  consistent : t.Consistent
  stored : row ∈ t.credentials
  names : row.metadata.agentTokenId = some token
  live : S.live t.tokens token ≠ none

/-- No revoke of the token takes effect. -/
def Unrevoked (token : Id) (_ : Tenant S) : Request → Delivery → Prop
  | .revokeAgentToken id, d => id = token → d.lands = false
  | _, _ => True

/-- The request neither drops the row nor writes to it. -/
def SparesRow (row : Credential) : Request → Prop
  | .deleteCredential id | .patchCredential id _ => id ≠ row.id
  | .deleteProvider id => id ≠ row.providerId
  | _ => True

/-! ### Requests -/

/-- Only rows and tokens matter. -/
lemma Bears.congr (h : Bears row token t) {u : Tenant S} (hu : u.Consistent)
    (hrows : ∀ other ∈ t.credentials, other ∈ u.credentials) (htokens : u.tokens = t.tokens) :
    Bears row token u :=
  ⟨hu, hrows row h.stored, h.names, htokens ▸ h.live⟩

/-- **What a request that spares the row leaves**, if it revokes no token of it. -/
lemma Bears.serve (h : Bears row token t) {q : Request} {d : Delivery} (hq : SparesRow row q)
    (hd : Unrevoked token t q d) (hlands : d.lands) : Bears row token (t.serve q).2 := by
  have hconsistent := h.consistent.serve q
  cases q with
  | listProviders | listCredentials | discover | listModels | listModelProviders
  | listOfferings => exact h
  | createProvider | startLogin | createModel | createModelProvider | deleteModelProvider
  | createOffering =>
    -- the credentials and the tokens are as they were
    refine h.congr hconsistent ?_ ?_ <;>
      simp only [Tenant.serve, Tenant.createProvider, Tenant.startLogin, Tenant.createModel,
        Tenant.createModelProvider, Tenant.deleteModelProvider, Tenant.createOffering] <;>
      split_ifs
    all_goals first | rfl | exact fun _ hother => hother
  | createCredential providerId name secret metadata =>
    refine h.congr hconsistent ?_ ?_ <;>
      simp only [Tenant.serve, Tenant.createCredential] <;> split_ifs
    exacts [fun _ ho => ho, fun _ ho => ho, fun _ ho => List.mem_cons_of_mem _ ho, rfl, rfl, rfl]
  | deleteProvider id =>
    have hkept : row ∈ t.credentials.filter (·.providerId ≠ id) :=
      List.mem_filter.mpr ⟨h.stored, by simpa using Ne.symm hq⟩
    refine ⟨hconsistent, ?_, h.names, ?_⟩ <;>
      simp only [Tenant.serve, Tenant.deleteProvider] <;> split_ifs
    exacts [h.stored, h.stored, hkept, h.live, h.live, h.live]
  | patchCredential id metadata =>
    refine ⟨hconsistent, ?_, h.names, ?_⟩ <;>
      simp only [Tenant.serve, Tenant.patchCredential] <;> cases t.credentials.find? (·.id = id)
    exacts [h.stored, List.mem_map.mpr ⟨row, h.stored, if_neg (Ne.symm hq)⟩, h.live, h.live]
  | deleteCredential id =>
    have hkept : row ∈ t.credentials.filter (·.id ≠ id) :=
      List.mem_filter.mpr ⟨h.stored, by simpa using Ne.symm hq⟩
    refine ⟨hconsistent, ?_, h.names, ?_⟩ <;>
      simp only [Tenant.serve, Tenant.deleteCredential] <;> split_ifs
    exacts [h.stored, h.stored, hkept, h.live, h.live, h.live]
  | mintAgentToken assetId name =>
    refine ⟨hconsistent, h.stored, h.names, ?_⟩
    change S.live (S.mint assetId name t.tokens).2 token ≠ none
    rw [S.live_mint]
    split_ifs
    · simp
    · exact h.live
  | revokeAgentToken id =>
    have hne : ¬ token = id := by
      rintro rfl
      simp [hd rfl] at hlands
    refine ⟨hconsistent, h.stored, h.names, ?_⟩
    change S.live (S.revoke id t.tokens).2 token ≠ none
    rw [S.live_revoke, if_neg hne]
    exact h.live

/-- A row that a request makes is another one. -/
lemma Bears.ne_of_created (h : Bears row token t) {providerId : Id} {name secret : String}
    {metadata : Metadata} {created : Credential}
    (hcreated : (t.createCredential providerId name secret metadata).1 = .ok created) :
    created.id ≠ row.id := by
  have hbelow := h.consistent.credentials.below row h.stored
  rw [(Tenant.createCredential_ok hcreated).1]
  exact Nat.ne_of_gt hbelow

/-- The program ends with the row and its token, until the token is revoked. -/
abbrev KeepsBearer (row : Credential) (token : Id) {α : Type} (p : Call α) : Prop :=
  p.Preserves (Tenant.serve (S := S)) (Unrevoked token) (Bears row token)

lemma keepsBearer_ask {α : Type} {q : Request} {next : Reply q.Answers → Call α}
    (hq : SparesRow row q) (rest : ∀ reply, KeepsBearer (S := S) row token (next reply)) :
    KeepsBearer (S := S) row token (.ask q next) :=
  Client.preserves_ask (fun _ _ h hd hlands => h.serve hq hd hlands) rest

lemma keepsBearer_request {q : Request} (hq : SparesRow row q) (otherwise : String) :
    KeepsBearer (S := S) row token (request q otherwise) := by
  refine keepsBearer_ask hq fun reply => ?_
  split <;> exact Client.preserves_done _

/-! ### The hub credential -/

lemma keepsBearer_ensureHubProvider (origin : String) :
    KeepsBearer (S := S) row token (ensureHubProvider origin) := by
  refine (keepsBearer_request (by trivial) _).bind fun providers => ?_
  cases providers.find? (·.name = hubProviderName) with
  | some existing => exact Client.preserves_done _
  | none =>
    exact (keepsBearer_request (by trivial) _).bind fun created => Client.preserves_done _

lemma keepsBearer_mintAndStore (providerId : Id) (credentialName : String) (assetId : Id) :
    KeepsBearer (S := S) row token (mintAndStore providerId credentialName assetId) := by
  refine (keepsBearer_request (by trivial) _).bind fun minted => ?_
  exact (keepsBearer_request (by trivial) _).bind fun stored => Client.preserves_done _

/-- A revoke that is answered well is one of another token. -/
lemma ensures_revokePrior_bears (prior : Option Id) (h : Bears row token t) :
    Client.Ensures Tenant.serve (Unrevoked token) (revokePrior prior) (fun result u =>
      Bears row token u ∧ u.credentials = t.credentials ∧
        (result = .ok () → prior ≠ some token)) t := by
  cases prior with
  | none => exact (Client.ensures_done _).mpr ⟨h, rfl, fun _ => by simp⟩
  | some other =>
    refine (Client.ensures_ask _ _).mpr fun d hd => ?_
    have hafter : Bears row token
        (Client.deliver Tenant.serve t (.revokeAgentToken other) d).2 :=
      Client.deliver_keeps h fun hlands => h.serve trivial hd hlands
    cases d with
    | answered =>
      have hother : some other ≠ some token := fun heq => by
        have := hd (Option.some.inj heq)
        simp [Delivery.lands] at this
      have hanswer : ∃ answer : Answer Unit, (t.revokeAgentToken other).1 = answer := ⟨_, rfl⟩
      obtain ⟨answer, hanswer⟩ := hanswer
      simp only [Client.deliver, Tenant.serve, hanswer]
      cases answer with
      | ok | notFound => exact (Client.ensures_done _).mpr ⟨hafter, rfl, fun _ => hother⟩
      | conflict | failed =>
        exact (Client.ensures_done _).mpr ⟨hafter, rfl, fun hok => by cases hok⟩
    | lost => exact (Client.ensures_done _).mpr ⟨hafter, rfl, fun hok => by cases hok⟩
    | refused | unreached =>
      exact (Client.ensures_done _).mpr ⟨hafter, rfl, fun hok => by cases hok⟩

/-- The loop does not come to the row: it stops at the revoke before it. -/
lemma ensures_dropPrior_bears (rows : List Credential) (h : Bears row token t)
    (hrows : Stored rows t) : Client.Ensures Tenant.serve (Unrevoked token) (dropPrior rows)
      (fun _ => Bears row token) t := by
  induction rows generalizing t with
  | nil => exact (Client.ensures_done _).mpr h
  | cons credential rest ih =>
    refine (Client.ensures_bind _ _).mpr ((ensures_revokePrior_bears _ h).mono ?_)
    rintro (message | ⟨⟩) u ⟨hbears, hsame, hrevoked⟩
    · exact hbears
    · have hstored : Stored (credential :: rest) u := by
        unfold Stored
        rw [hsame]
        exact hrows
      have hne : credential.id ≠ row.id := by
        intro hid
        obtain rfl := hstored credential List.mem_cons_self row hbears.stored hid.symm
        exact hrevoked rfl hbears.names
      have hdelete : Bears row token (u.serve (.deleteCredential credential.id)).2 :=
        hbears.serve (d := .answered) hne trivial rfl
      refine (Client.ensures_bind _ _).mpr
        (ensures_request_keeps hbears hdelete ?_ fun _ _ hv => hv)
      intro _ _ _
      refine ih hdelete fun other hother kept hkept => ?_
      exact hstored other (List.mem_cons_of_mem _ hother) kept (mem_of_mem_deleteCredential hkept)

lemma keepsBearer_ensureAgentHubCredential (origin definitionId : String) (assetId : Id) :
    KeepsBearer (S := S) row token (ensureAgentHubCredential origin definitionId assetId) := by
  refine (keepsBearer_ensureHubProvider origin).bind fun providerId t h => ?_
  have hlist : Bears row token (t.serve .listCredentials).2 := h
  refine (Client.ensures_bind _ _).mpr (ensures_request_keeps h hlist ?_ fun _ _ hu => hu)
  rintro _ - ⟨⟩
  refine (Client.ensures_bind _ _).mpr ((ensures_dropPrior_bears _ hlist ?_).mono ?_)
  · intro credential hcredential other hother hid
    have hmem := List.mem_of_mem_take (List.mem_of_mem_filter hcredential)
    exact h.consistent.credentials.eq_of_id hother hmem hid
  · rintro (message | ⟨⟩) u hu
    · exact hu
    · exact keepsBearer_mintAndStore _ _ _ u hu

/-- The constraints of the tables hold after every run. -/
lemma ensures_consistent {G : Tenant S → Request → Delivery → Prop} {α : Type} (p : Call α)
    (h : t.Consistent) : Client.Ensures Tenant.serve G p (fun _ u => u.Consistent) t :=
  fun _ _ hrun => hrun.keeps h fun _ q hs => hs.serve q

/-- What a call gives back is a row of this kind: that of the deployment it is made for. -/
def Made (name : String) (result : Except String Id) (t : Tenant S) : Prop :=
  ∀ id, result = .ok id → ∃ row token, row.id = id ∧ row.name = name ∧ Bears row token t

lemma made_error {name message : String} : Made name (.error message) t := by
  rintro _ ⟨⟩

lemma ensures_mintAndStore_made {G : Tenant S → Request → Delivery → Prop} (providerId : Id)
    (name : String) (assetId : Id) (h : t.Consistent) :
    Client.Ensures Tenant.serve G (mintAndStore providerId name assetId) (Made name) t := by
  refine (Client.ensures_bind _ _).mpr (ensures_request_keeps (I := fun _ => True) trivial trivial
    ?_ fun _ _ _ => made_error)
  rintro _ - ⟨⟩
  have hminted : (t.serve (.mintAgentToken assetId name)).2.Consistent := h.serve _
  refine (Client.ensures_bind _ _).mpr (ensures_request_keeps (I := fun _ => True) trivial trivial
    ?_ fun _ _ _ => made_error)
  intro stored _ hstored
  refine (Client.ensures_done _).mpr ?_
  rintro _ ⟨⟩
  obtain ⟨hfields, hafter⟩ := Tenant.createCredential_ok hstored
  have hlive :
      S.live (S.mint assetId name t.tokens).2 (S.mint assetId name t.tokens).1.1 ≠ none := by
    rw [S.live_mint, if_pos rfl]
    simp
  refine ⟨stored, (S.mint assetId name t.tokens).1.1, rfl, by rw [hfields], hminted.serve _, ?_,
    by rw [hfields], ?_⟩
  · rw [Tenant.serve, hafter]
    exact List.mem_cons_self
  · rw [Tenant.serve, hafter]
    exact hlive

/-- **The credential that a deploy makes** is stored and its token is live. -/
lemma ensures_ensureAgentHubCredential_made {G : Tenant S → Request → Delivery → Prop}
    (origin definitionId : String) (assetId : Id) (h : t.Consistent) :
    Client.Ensures Tenant.serve G (ensureAgentHubCredential origin definitionId assetId)
      (Made (agentHubCredentialName definitionId)) t := by
  refine (Client.ensures_bind _ _).mpr ((ensures_consistent (ensureHubProvider origin) h).mono ?_)
  rintro (message | providerId) u hu
  · exact made_error
  refine (Client.ensures_bind _ _).mpr ((ensures_consistent _ hu).mono ?_)
  rintro (message | page) v hv
  · exact made_error
  refine (Client.ensures_bind _ _).mpr ((ensures_consistent _ hv).mono ?_)
  rintro (message | ⟨⟩) w hw
  · exact made_error
  · exact ensures_mintAndStore_made providerId _ assetId hw

/-! ### The servers of the tenant -/

lemma keepsBearer_listMcpServers (E : McpPackages) :
    KeepsBearer (S := S) row token (listMcpServers E) := by
  refine (keepsBearer_request (by trivial) _).bind fun providers => ?_
  exact (keepsBearer_request (by trivial) _).bind fun credentials => Client.preserves_done _

lemma keepsBearer_ensureMcpProvider (E : McpPackages) (handle url : String) :
    KeepsBearer (S := S) row token (ensureMcpProvider E handle url) := by
  refine (keepsBearer_request (by trivial) _).bind fun providers => ?_
  cases providers.find? (·.name = mcpProviderName handle) with
  | some existing => exact Client.preserves_done _
  | none =>
    dsimp only
    cases E.origin url with
    | none => exact Client.preserves_done _
    | some origin =>
      exact (keepsBearer_request (by trivial) _).bind fun created => Client.preserves_done _

lemma keepsBearer_deleteCredential {credentialId : Id} (hne : credentialId ≠ row.id) :
    KeepsBearer (S := S) row token (deleteCredential credentialId) := by
  refine keepsBearer_ask hne fun reply => ?_
  split <;> exact Client.preserves_done _

/-- The catalog is recorded on another row, or that one is dropped. -/
lemma keepsBearer_recordCatalog {credentialId : Id} (hne : credentialId ≠ row.id)
    (providerId : Id) (handle name url : String) (auth : McpAuthKind) (metadata : Metadata) :
    KeepsBearer (S := S) row token
      (recordCatalog credentialId providerId handle name url auth metadata) := by
  have hdrop (cause : String) : KeepsBearer (S := S) row token
      ((deleteCredential credentialId).bind fun _ => (.fail cause : Call McpServer)) :=
    (keepsBearer_deleteCredential hne).bind fun _ => Client.preserves_done _
  refine (keepsBearer_request (by trivial) _).andThen fun result => ?_
  cases result with
  | error cause => exact hdrop cause
  | ok tools =>
    refine keepsBearer_ask hne fun reply => ?_
    rcases reply with (patched | _ | _ | _) | _ | _
    exacts [Client.preserves_done _, hdrop _, hdrop _, hdrop _, hdrop _, Client.preserves_done _]

lemma ensures_storeCredential_bears (providerId : Id) (handle secret : String)
    (metadata : Metadata) (h : Bears row token t) :
    Client.Ensures Tenant.serve (Unrevoked token)
      (storeCredential providerId handle secret metadata)
      (fun result u => Bears row token u ∧ ∀ id, result = .ok id → id ≠ row.id) t := by
  have hafter : Bears row token
      (t.serve (.createCredential providerId (mcpCredentialName handle) secret metadata)).2 :=
    h.serve (d := .answered) trivial trivial rfl
  refine (Client.ensures_bind _ _).mpr (ensures_request_keeps h hafter ?_ ?_)
  · intro created _ hcreated
    refine (Client.ensures_done _).mpr ⟨hafter, ?_⟩
    rintro _ ⟨⟩
    exact h.ne_of_created hcreated
  · exact fun _ _ hu => ⟨hu, fun _ hid => by cases hid⟩

lemma keepsBearer_addMcpServer (E : McpPackages) (input : AddMcpServerInput) :
    KeepsBearer (S := S) row token (addMcpServer E input) := by
  refine (keepsBearer_ensureMcpProvider E _ _).bind fun providerId t h => ?_
  refine (Client.ensures_bind _ _).mpr ((ensures_storeCredential_bears _ _ _ _ h).mono ?_)
  rintro (message | credentialId) u ⟨hu, hne⟩
  · exact hu
  · exact keepsBearer_recordCatalog (hne _ rfl) _ _ _ _ _ _ u hu

lemma keepsBearer_runEnsureBuiltInMcpServers (E : McpPackages) :
    KeepsBearer (S := S) row token (runEnsureBuiltInMcpServers E) := by
  refine (keepsBearer_listMcpServers E).bind fun existing => ?_
  split
  · exact Client.preserves_done _
  · exact (keepsBearer_addMcpServer E _).bind fun added => Client.preserves_done _

/-! ### The deploys -/

section

variable {R : Type} {A : R → Type} {ρ : Type} (elsewhere : (q : R) → ρ → A q × ρ)

/-- The rows of the tenant, beside what else is asked for. -/
abbrev serveRows : (q : R ⊕ Request) → ρ × Tenant S → RowAnswers A q × (ρ × Tenant S) :=
  Client.serveBoth elsewhere Tenant.serve

abbrev serveDeploy :
    (q : (R ⊕ Request) ⊕ InstallRequest) → (ρ × Tenant S) × Installs →
      DeployAnswers A q × ((ρ × Tenant S) × Installs) :=
  Client.serveBoth (serveRows elsewhere) Installs.serve

def RowsUnrevoked (token : Id) (s : ρ × Tenant S) : R ⊕ Request → Delivery → Prop
  | .inl _, _ => True
  | .inr q, d => Unrevoked token s.2 q d

/-- No revoke of the token takes effect in a deploy. -/
def DeployUnrevoked (token : Id) (s : (ρ × Tenant S) × Installs) :
    (R ⊕ Request) ⊕ InstallRequest → Delivery → Prop
  | .inl q, d => RowsUnrevoked token s.1 q d
  | .inr _, _ => True

instance (token : Id) (s : (ρ × Tenant S) × Installs) (q : (R ⊕ Request) ⊕ InstallRequest)
    (d : Delivery) : Decidable (DeployUnrevoked token s q d) :=
  match q with
  | .inl (.inr (.revokeAgentToken id)) => inferInstanceAs (Decidable (id = token → d.lands = false))
  | .inl (.inr .listProviders) | .inl (.inr (.createProvider ..)) | .inl (.inr (.deleteProvider _))
  | .inl (.inr .listCredentials) | .inl (.inr (.createCredential ..))
  | .inl (.inr (.patchCredential ..)) | .inl (.inr (.deleteCredential _))
  | .inl (.inr (.mintAgentToken ..)) | .inl (.inr (.discover ..)) | .inl (.inr (.startLogin ..))
  | .inl (.inr (.createModel ..)) | .inl (.inr .listModels)
  | .inl (.inr (.createModelProvider ..)) | .inl (.inr .listModelProviders)
  | .inl (.inr (.deleteModelProvider _)) | .inl (.inr (.createOffering ..))
  | .inl (.inr .listOfferings) | .inl (.inl _) | .inr _ => .isTrue trivial

abbrev KeepsRows (row : Credential) (token : Id) {α : Type} (p : Client (RowAnswers A) String α) :
    Prop :=
  p.Preserves (serveRows (S := S) elsewhere) (RowsUnrevoked token) fun s => Bears row token s.2

abbrev KeepsDeploy (row : Credential) (token : Id) {α : Type} (p : DeployClient A α) : Prop :=
  p.Preserves (serveDeploy (S := S) elsewhere) (DeployUnrevoked token) fun s =>
    Bears row token s.1.2

variable {elsewhere}

lemma keepsRows_own {α : Type} {p : Call α} (h : KeepsBearer (S := S) row token p) :
    KeepsRows (S := S) elsewhere row token p.right :=
  Client.preserves_right (fun _ _ _ hd => hd) h

lemma keepsDeploy_rows {α : Type} {p : Client (RowAnswers A) String α}
    (h : KeepsRows (S := S) elsewhere row token p) :
    KeepsDeploy (S := S) elsewhere row token p.left :=
  Client.preserves_left (fun _ _ _ hd => hd) h

/-- What is asked elsewhere leaves the rows alone. -/
lemma keepsDeploy_elsewhere {α : Type} (p : Client A String α) :
    KeepsDeploy (S := S) elsewhere row token p.left.left :=
  keepsDeploy_rows (Client.left_preserves p)

/-- An install leaves the rows to its files. -/
lemma keepsDeploy_installPackage {args : InstallPackageArgs (RowAnswers A)} (now : ℕ)
    (hfiles : ∀ assetId, KeepsRows (S := S) elsewhere row token (args.files assetId)) :
    KeepsDeploy (S := S) elsewhere row token (installPackage args now) := by
  have hinstall {α : Type} (p : InstallClient α) :
      KeepsDeploy (S := S) elsewhere row token p.right :=
    Client.right_preserves (J := fun s : ρ × Tenant S => Bears row token s.2) p
  refine (hinstall _).bind fun assetId => ?_
  exact (keepsDeploy_rows (hfiles assetId)).bind fun source => hinstall _

lemma keepsRows_atWorkspace (routes : DeployRoutes A) {own : Call (List McpServer)}
    (hown : KeepsBearer (S := S) row token own)
    (other : String → Client A String (List McpServer)) :
    KeepsRows (S := S) elsewhere row token (atWorkspace routes own other) := by
  refine Client.Preserves.bind (Client.left_preserves _) fun parentId => ?_
  cases parentId with
  | none => exact keepsRows_own hown
  | some parent => exact Client.left_preserves _

section

variable {ν : Type} (routes : DeployRoutes A) (P : AgentBuild ν) (E : McpPackages)
  (origin : String) (now : ℕ)

lemma keepsRows_agentFiles (definitionId packageName : String)
    (render : String → Worker.WorkerWorkflowInput ν) (toolEffects : List Worker.ToolEffect)
    (assetId : Id) : KeepsRows (S := S) elsewhere row token
      (agentFiles P origin definitionId packageName render toolEffects assetId) :=
  (keepsRows_own (keepsBearer_ensureAgentHubCredential origin definitionId assetId)).bind
    fun _ => Client.preserves_done _

lemma keepsRows_requestedServers (input : NewAgentInput) :
    KeepsRows (S := S) elsewhere row token (requestedServers routes P E input) := by
  have hcatalog : KeepsRows (S := S) elsewhere row token
      (requestedCatalog routes E (input.mcpHandles.getD [])) := by
    unfold requestedCatalog
    split_ifs
    · exact Client.preserves_done _
    · exact keepsRows_atWorkspace routes (keepsBearer_listMcpServers E) _
  exact hcatalog.bind fun catalog => Client.preserves_done _

lemma keepsDeploy_deployAgentSource (input : NewAgentInput) :
    KeepsDeploy (S := S) elsewhere row token
      (deployAgentSource routes P E origin now input) := by
  refine (Client.preserves_done _).bind fun agent => ?_
  refine (keepsDeploy_elsewhere _).bind fun roleIds => ?_
  refine (keepsDeploy_elsewhere _).bind fun domain => ?_
  refine (keepsDeploy_elsewhere _).bind fun models => ?_
  cases resolveExistingOffering models with
  | none => exact Client.preserves_done _
  | some offering =>
    refine (keepsDeploy_rows (keepsRows_requestedServers routes P E input)).bind
      fun mcpServers => ?_
    have hinstall : KeepsDeploy (S := S) elsewhere row token
        (installPackage (agentPackageArgs P origin agent input domain offering mcpServers) now) :=
      keepsDeploy_installPackage now (keepsRows_agentFiles P origin agent.slug agent.packageName
        (fun hubCredentialId => agentWorkflowInput agent domain offering.declaredSources
          hubCredentialId mcpServers) (input.toolEffects.getD []))
    refine hinstall.bind fun parsed => ?_
    exact (keepsDeploy_elsewhere _).bind fun _ => Client.preserves_done _

lemma keepsDeploy_deployWorkerSource (args : DeployWorkerArgs ν) :
    KeepsDeploy (S := S) elsewhere row token
      (deployWorkerSource routes P E origin now args) := by
  refine (keepsDeploy_rows (keepsRows_atWorkspace routes
    (keepsBearer_runEnsureBuiltInMcpServers E) _)).bind fun servers => ?_
  exact keepsDeploy_installPackage now (keepsRows_agentFiles P origin Worker.workerWorkflowId
    "@workbench/worker" (workerWorkflowInput P args (servers.map (toMcpServerDeployment P))) [])

end

end

/-- Nothing is asked elsewhere: the answers are known. -/
def knownRoutes : DeployRoutes (fun _ : Empty => Unit) where
  resolveAgentRoleIds _ := pure []
  tenantDomain := pure "acme.example"
  getResolvedCatalog := pure [⟨"large", [⟨"offering", "openai", 0⟩]⟩]
  parentId := pure none
  listMcpServers _ := pure []
  ensureBuiltInMcpServers _ := pure []
  scheduleAgentRun _ _ _ := pure ()
  assignRolesToAgent _ _ _ := pure ()

def noneElsewhere (q : Empty) (_ : Unit) : Unit × Unit := q.elim

/-- The agent has its credential, its asset and a deployment that runs. -/
def runningScout : (Unit × Tenant (ledger fun _ _ => none)) × Installs :=
  (((), ((ensureAgentHubCredential "https://hub" "scout" 0).exec Tenant.serve [] freshTenant).2),
    { assets := [⟨0, scout.assetName, scout.name, []⟩]
      gitTokens := []
      deployments := [⟨1, ⟨0, [], "./workflow.js", ["offering"], "offering"⟩, .deployed⟩]
      nextId := 2
      genesis := []
      secretOf := fun id => toString id })

def scoutCredential : Credential :=
  ⟨1, 0, "scout-hub", "Bearer token", { agentTokenId := some 0 }⟩

def redeployScout : DeployClient (fun _ : Empty => Unit) Installed :=
  deployAgentSource knownRoutes someBuild knownPackages "https://hub" 5 (scoutInput [])

lemma bears_runningScout : Bears scoutCredential 0 runningScout.1.2 where
  consistent := (Client.runs_exec (ensureAgentHubCredential "https://hub" "scout" 0) []
    freshTenant).keeps (.empty _) fun _ q h => h.serve q
  stored := by decide +kernel
  names := rfl
  live := by decide +kernel

end Workbench.Web
