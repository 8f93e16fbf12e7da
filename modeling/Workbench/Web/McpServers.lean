import Workbench.Web.Hub
import Mathlib.Data.List.Sort

/-!
The MCP servers of a tenant: one provider row for each, pinned to the server's origin, and one
credential, whose metadata holds the catalog.

A server is added by up to four requests. What an add that fails has left behind is decided here
for every request at which it can fail.
-/

namespace Workbench.Web

open Workbench.Lib

/-- What the packages around this code give it. -/
structure McpPackages where
  /-- `new URL(url).origin`, when the URL parses -/
  origin : String → Option String
  /-- the plugin of an MCP provider row -/
  streamableHttpProviderKey : String
  /-- the stored secret of a server that needs none -/
  noTokenSentinel : String
  localeCompare : String → String → Ordering

/-- One MCP server as the Tools page and the deployer see it. -/
structure McpServer where
  credentialId : Id
  providerId : Id
  handle : String
  name : String
  url : String
  auth : McpAuthKind
  tools : List McpTool
  deriving DecidableEq, Repr

structure AddMcpServerInput where
  handle : String
  name : String
  url : String
  token : Option String
  deriving DecidableEq, Repr

structure McpSignInInput where
  handle : String
  name : String
  url : String
  deriving DecidableEq, Repr

structure McpSignIn where
  loginId : Id
  authorizeUrl : String
  providerId : Id
  deriving DecidableEq, Repr

def mcpProviderName (handle : String) : String := "mcp-" ++ handle

def mcpCredentialName (handle : String) : String := "mcp-" ++ handle

section Programs

variable (E : McpPackages)

/-- The shape that is read back: no field is empty. -/
def StoredMcp.parses (stored : StoredMcp) : Bool :=
  stored.handle ≠ "" ∧ stored.name ≠ "" ∧ stored.url ≠ ""

/-- The server a credential describes, if it sits on a provider row of the MCP plugin. -/
def storedServer (providers : List Provider) (credential : Credential) : Option McpServer :=
  if providers.any fun provider =>
      provider.plugin = E.streamableHttpProviderKey ∧ provider.id = credential.providerId then
    (credential.metadata.mcp.filter (·.parses)).map fun stored =>
      ⟨credential.id, credential.providerId, stored.handle, stored.name, stored.url, stored.auth,
        stored.tools⟩
  else none

/-- The two listings are sent together; neither changes a row. -/
def listMcpServers : Call (List McpServer) := do
  let providers : List Provider ← request .listProviders "listing the MCP providers failed"
  let credentials : List Credential ←
    request .listCredentials "listing the MCP credentials failed"
  pure ((credentials.filterMap (storedServer E providers)).insertionSort fun a b =>
    E.localeCompare a.name b.name ≠ .gt)

/-- A provider row per server, pinned to that server's origin. -/
def ensureMcpProvider (handle url : String) : Call Id := do
  let providers : List Provider ← request .listProviders "listing the MCP providers failed"
  match providers.find? (·.name = mcpProviderName handle) with
  | some existing => pure existing.id
  | none =>
    match E.origin url with
    | none => .fail "Invalid URL"
    | some origin =>
      let created : Provider ←
        request (.createProvider (mcpProviderName handle) E.streamableHttpProviderKey (some origin))
          ("preparing the " ++ handle ++ " server's provider failed")
      pure created.id

def storeCredential (providerId : Id) (handle secret : String) (metadata : Metadata) :
    Call Id := do
  let stored : Credential ←
    request (.createCredential providerId (mcpCredentialName handle) secret metadata)
      ("storing the " ++ handle ++ " server failed")
  pure stored.id

/-- The status of the answer is not looked at. -/
def deleteCredential (credentialId : Id) : Call Unit :=
  .ask (.deleteCredential credentialId) fun
    | .threw => .fail networkError
    | _ => pure ()

def discoverMcpCatalog (url : String) (credentialId : Option Id) : Call (List McpTool) :=
  request (.discover url credentialId) "this server could not be reached"

/-- The credential is dropped if a step is answered with a failure. -/
def recordCatalog (credentialId providerId : Id) (handle name url : String) (auth : McpAuthKind)
    (existingMetadata : Metadata) : Call McpServer :=
  (discoverMcpCatalog url (some credentialId)).andThen fun
    | .error cause => do
      deleteCredential credentialId
      .fail cause
    | .ok tools =>
      .ask (.patchCredential credentialId
        { existingMetadata with mcp := some ⟨handle, name, url, auth, tools⟩ }) fun
        | .answered (.ok _) => pure ⟨credentialId, providerId, handle, name, url, auth, tools⟩
        | .threw => .fail networkError
        | _ => do
          deleteCredential credentialId
          .fail ("recording the " ++ handle ++ " server's tools failed")

def addMcpServer (input : AddMcpServerInput) : Call McpServer := do
  let providerId ← ensureMcpProvider E input.handle input.url
  let auth : McpAuthKind := if input.token.isNone then .none else .token
  let credentialId ← storeCredential providerId input.handle
    (input.token.getD E.noTokenSentinel)
    { mcp := some ⟨input.handle, input.name, input.url, auth, []⟩ }
  recordCatalog credentialId providerId input.handle input.name input.url auth {}

def startMcpSignIn (input : McpSignInInput) : Call McpSignIn := do
  let providerId ← ensureMcpProvider E input.handle input.url
  let started : Id × String ←
    request (.startLogin input.url providerId (mcpCredentialName input.handle))
      ("starting the " ++ input.name ++ " sign-in failed")
  pure ⟨started.1, started.2, providerId⟩

/-- The login has stored the credential; this records the catalog beside its metadata. -/
def addSignedInMcpServer (input : McpSignInInput) (credentialId providerId : Id) :
    Call McpServer := do
  let credentials : List Credential ←
    request .listCredentials "listing the MCP credentials failed"
  let credential := credentials.find? (·.id = credentialId)
  recordCatalog credentialId providerId input.handle input.name input.url .oauth
    ((credential.map (·.metadata)).getD {})

/-- Drops a server and the provider row that existed only for it. -/
def removeMcpServer (credentialId providerId : Id) : Call Unit := do
  request (.deleteCredential credentialId) "removing this MCP server failed"
  .ask (.deleteProvider providerId) fun
    | .threw => .fail networkError
    | _ => pure ()

end Programs

/-! ### A failed add -/

section FailedAdd

variable {S : Services} {t u v : Tenant S} {c : Id} {name : String}

/-- The requests of an add whose effect, if the add fails, is undone or never there: no provider
row is created, no credential is stored behind a lost answer, the metadata patch and the listing
before it are answered, and the clean-up lands. -/
def Undone (t : Tenant S) : Request → Delivery → Prop
  | .createProvider .., d => d.lands = false
  | .createCredential providerId n secret metadata, d =>
    d = .lost → (t.createCredential providerId n secret metadata).1.accepted = false
  | .listCredentials, d => d = .answered
  | .patchCredential .., d => d = .answered ∨ d = .refused
  | .deleteCredential _, d => d.lands
  | _, _ => True

/-- The row with id `c` is stored, and no model provider uses it. -/
structure Droppable (c : Id) (name : String) (t : Tenant S) : Prop where
  stored : ∃ row ∈ t.credentials, row.id = c ∧ row.name = name
  unused : ∀ provider ∈ t.modelProviders, provider.credentialId ≠ some c

/-- From `u` to `v` the credential `c` goes if the guard was met, and stays if not. -/
structure Dropped (c : Id) (name : String) (u v : Tenant S) (met : Prop) : Prop where
  providers : v.providers = u.providers
  clean : met → ∀ row ∈ v.credentials, row ∈ u.credentials ∧ row.id ≠ c
  left : ¬ met → ∃ row ∈ v.credentials, row.id = c ∧ row.name = name

lemma Dropped.of_iff {met met' : Prop} (h : Dropped c name u v met) (hiff : met' ↔ met) :
    Dropped c name u v met' := by
  rw [propext hiff]
  exact h

lemma Droppable.delete (h : Droppable c name t) :
    Dropped c name t (t.serve (.deleteCredential c)).2 True := by
  obtain ⟨row, hrow, hid, -⟩ := h.stored
  have hsome : ¬ t.credentials.all (·.id ≠ c) = true := by
    simp only [List.all_eq_true, decide_eq_true_eq, not_forall, not_not]
    exact ⟨row, hrow, hid⟩
  have hunused : ¬ t.modelProviders.any (·.credentialId = some c) = true := by
    simp only [List.any_eq_true, decide_eq_true_eq, not_exists, not_and]
    exact h.unused
  simp only [Tenant.serve, Tenant.deleteCredential, if_neg hsome, if_neg hunused]
  refine ⟨rfl, fun _ row hrow => ?_, fun hmet => absurd trivial hmet⟩
  simpa using List.mem_filter.mp hrow

lemma Droppable.stays (h : Droppable c name t) : Dropped c name t t False :=
  ⟨rfl, False.elim, fun _ => h.stored⟩

/-- The clean-up. -/
lemma decides_drop (h : Droppable c name t) (cause : String) :
    Client.Decides Tenant.serve Undone
      ((deleteCredential c).bind fun _ => (.fail cause : Call McpServer))
      (fun _ v met => Dropped c name t v met) t := by
  rw [deleteCredential, Client.bind_ask, Client.decides_ask]
  intro d
  cases d with
  | answered | lost => simpa [Client.deliver, Undone, Delivery.lands] using h.delete
  | refused | unreached => simpa [Client.deliver, Undone, Delivery.lands] using h.stays

lemma decides_drop_after (h : Droppable c name t) (cause : String) {met : Prop} (hmet : met) :
    Client.Decides Tenant.serve Undone
      ((deleteCredential c).bind fun _ => (.fail cause : Call McpServer))
      (fun result v met' => ∀ e, result = .error e → Dropped c name t v (met ∧ met')) t :=
  (decides_drop h cause).mono fun _ _ _ hdropped _ _ =>
    hdropped.of_iff ⟨fun hboth => hboth.2, fun hmet' => ⟨hmet, hmet'⟩⟩

/-- A catalog that is not recorded leaves no credential exactly when the guard was met. -/
lemma decides_recordCatalog (h : Droppable c name t) (providerId : Id) (handle label url : String)
    (auth : McpAuthKind) (existing : Metadata) :
    Client.Decides Tenant.serve Undone
      (recordCatalog c providerId handle label url auth existing)
      (fun result v met => ∀ e, result = .error e → Dropped c name t v met) t := by
  rw [recordCatalog, Client.decides_andThen, discoverMcpCatalog]
  have hdiscover : (t.serve (.discover url (some c))).2 = t := rfl
  refine decides_request ?_ ?_ ?_ ?_
  · exact fun d message _ => decides_drop_after h message trivial
  · rw [hdiscover]
    exact fun message => decides_drop_after h message trivial
  · rw [hdiscover]
    exact fun message _ => decides_drop_after h message trivial
  · intro tools _
    rw [hdiscover, Client.decides_ask]
    set metadata : Metadata := { existing with mcp := some ⟨handle, label, url, auth, tools⟩ }
    obtain ⟨row, hrow, hid, hname⟩ := h.stored
    obtain ⟨⟨patched, hok⟩, hafter⟩ := Tenant.patchCredential_stored ⟨row, hrow, hid⟩ metadata
    -- a patch that lands changes the metadata and no name
    have hstays : Dropped c name t (t.serve (.patchCredential c metadata)).2 False := by
      rw [Tenant.serve, hafter]
      refine ⟨rfl, False.elim, fun _ => ⟨_, List.mem_map_of_mem hrow, ?_⟩⟩
      rw [if_pos hid]
      exact ⟨hid, hname⟩
    intro d
    cases d with
    | answered =>
      have hok : (t.serve (.patchCredential c metadata)).1 = .ok patched := hok
      rw [Client.deliver, hok]
      refine (Client.decides_done _).mpr fun e he => ?_
      cases he
    | refused =>
      refine (decides_drop h _).mono fun _ _ _ hdropped _ _ => hdropped.of_iff ?_
      simp [Undone]
    | unreached =>
      refine (Client.decides_done _).mpr fun e _ => h.stays.of_iff ?_
      simp [Undone]
    | lost =>
      refine (Client.decides_done _).mpr fun e _ => hstays.of_iff ?_
      simp [Undone]

/-- No credential of the name is there that was not there before. -/
def NoNewCredential (name : String) (t v : Tenant S) : Prop :=
  ∀ row ∈ v.credentials, row.name = name → row ∈ t.credentials

def NoNewProvider (name : String) (t v : Tenant S) : Prop :=
  ∀ row ∈ v.providers, row.name = name → row ∈ t.providers

/-- After a credential is stored, dropping it is leaving no new one. -/
lemma Dropped.noNew {row : Credential} {met : Prop} (h : Dropped row.id row.name u v met)
    (hcredentials : u.credentials = row :: t.credentials)
    (hfresh : ∀ other ∈ t.credentials, other.id ≠ row.id) :
    met ↔ NoNewCredential row.name t v := by
  constructor
  · intro hmet other hother _
    obtain ⟨hmem, hne⟩ := h.clean hmet other hother
    rw [hcredentials] at hmem
    rcases List.mem_cons.mp hmem with rfl | hmem
    · exact absurd rfl hne
    · exact hmem
  · intro hnone
    by_contra hmet
    obtain ⟨other, hother, hid, hname⟩ := h.left hmet
    exact hfresh other (hnone other hother hname) hid

/-- The row that a store has just put in front. -/
lemma droppable_created {providerId : Id} {secret : String} {metadata : Metadata}
    {row : Credential} (h : t.Consistent)
    (hrow : (t.createCredential providerId name secret metadata).1 = .ok row) :
    Droppable row.id row.name (t.createCredential providerId name secret metadata).2 ∧
      row.name = name ∧ ∀ other ∈ t.credentials, other.id ≠ row.id := by
  obtain ⟨hfields, hafter⟩ := Tenant.createCredential_ok hrow
  have hid : row.id = t.nextId := by rw [hfields]
  rw [hafter, hid]
  refine ⟨⟨⟨row, List.mem_cons_self, hid, rfl⟩, fun provider hprovider heq => ?_⟩, ?_, ?_⟩
  · exact absurd (h.modelProviderCredential provider hprovider _ heq) (Nat.lt_irrefl _)
  · rw [hfields]
  · exact fun other hother => Nat.ne_of_lt (h.credentials.below other hother)

lemma decides_store (h : t.Consistent) (providerId : Id) (handle secret label url : String)
    (metadata : Metadata) (auth : McpAuthKind) :
    Client.Decides Tenant.serve Undone
      ((storeCredential providerId handle secret metadata).bind fun credentialId =>
        recordCatalog credentialId providerId handle label url auth {})
      (fun result v met => ∀ e, result = .error e → v.providers = t.providers ∧
        (met ↔ NoNewCredential (mcpCredentialName handle) t v)) t := by
  set q := Request.createCredential providerId (mcpCredentialName handle) secret metadata
  have hsame : t.providers = t.providers ∧
      (True ↔ NoNewCredential (mcpCredentialName handle) t t) :=
    ⟨rfl, iff_of_true trivial fun _ hrow _ => hrow⟩
  have hrefused (h : (t.serve q).1.accepted = false) : (t.serve q).2 = t :=
    Tenant.createCredential_refused h
  have hstored (row : Credential) (hrow : (t.serve q).1 = .ok row) :
      (t.serve q).2 = { t.bump with credentials := row :: t.credentials } :=
    (Tenant.createCredential_ok hrow).2
  rw [Client.decides_bind, storeCredential]
  refine (Client.decides_bind _ _).mpr (decides_request ?_ ?_ ?_ ?_)
  · intro d message hlands e _
    have hmet : Undone t q d := fun hlost => by rw [hlost] at hlands; cases hlands
    rw [eq_true hmet]
    exact hsame
  · intro message e _
    by_cases hmet : Undone t q .lost
    · rw [eq_true hmet, hrefused (hmet rfl)]
      exact hsame
    · have haccepted : (t.serve q).1.accepted := by
        by_contra haccepted
        exact hmet fun _ => Bool.eq_false_of_not_eq_true haccepted
      obtain ⟨row, hrow⟩ := Answer.accepted_iff.1 haccepted
      obtain ⟨-, hname, hfresh⟩ := droppable_created h hrow
      rw [hstored row hrow]
      refine ⟨rfl, iff_of_false hmet fun hnone => ?_⟩
      exact hfresh row (hnone row List.mem_cons_self hname) rfl
  · intro message hfailed e _
    have haccepted : (t.serve q).1.accepted = false := by
      by_contra haccepted
      obtain ⟨row, hrow⟩ := Answer.accepted_iff.1 (Bool.eq_true_of_not_eq_false haccepted)
      exact hfailed row hrow
    have hmet : Undone t q .answered := fun hlost => by cases hlost
    rw [eq_true hmet, hrefused haccepted]
    exact hsame
  · intro row hrow
    obtain ⟨hdroppable, hname, hfresh⟩ := droppable_created h hrow
    refine (Client.decides_done _).mpr ?_
    refine (decides_recordCatalog hdroppable providerId handle label url auth {}).mono ?_
    intro result v met hdropped e he
    have hmet : Undone t q .answered := fun hlost => by cases hlost
    have hdropped := hdropped e he
    have hafter := hstored row hrow
    refine ⟨?_, ?_⟩
    · have hproviders : (t.serve q).2.providers = t.providers := by rw [hafter]; rfl
      exact hdropped.providers.trans hproviders
    · rw [and_true, eq_true hmet, true_and, ← hname]
      exact hdropped.noNew (congrArg Tenant.credentials hafter) hfresh

/-- From `t` to `v` a provider row of the server is there, a new one if the guard was not met. -/
structure Prepared (handle : String) (t v : Tenant S) (met : Prop) : Prop where
  consistent : v.Consistent
  credentials : v.credentials = t.credentials
  kept : met → v.providers = t.providers
  created : ¬ met → ∃ row ∈ v.providers, row.name = mcpProviderName handle ∧ row ∉ t.providers

lemma Prepared.of_iff {handle : String} {met met' : Prop} (h : Prepared handle t v met)
    (hiff : met' ↔ met) : Prepared handle t v met' := by
  rw [propext hiff]
  exact h

lemma Prepared.refl (h : t.Consistent) (handle : String) : Prepared handle t t True :=
  ⟨h, rfl, fun _ => rfl, fun hmet => absurd trivial hmet⟩

lemma decides_ensureMcpProvider (E : McpPackages) (h : t.Consistent) (handle url : String) :
    Client.Decides Tenant.serve Undone (ensureMcpProvider E handle url)
      (fun _ v met => Prepared handle t v met) t := by
  have hrefl := Prepared.refl h handle
  refine (Client.decides_bind _ _).mpr (decides_request ?_ ?_ ?_ ?_)
  · exact fun d message _ => hrefl
  · exact fun message => hrefl
  · exact fun message _ => hrefl
  rintro _ ⟨⟩
  dsimp only
  cases hfind : t.visibleProviders.find? (·.name = mcpProviderName handle) with
  | some existing => exact (Client.decides_done _).mpr (hrefl.of_iff (and_true _ ▸ Iff.rfl))
  | none =>
    cases E.origin url with
    | none => exact (Client.decides_done _).mpr (hrefl.of_iff (and_true _ ▸ Iff.rfl))
    | some origin =>
      have hfree : ∀ provider ∈ t.providers, provider.name ≠ mcpProviderName handle := by
        intro provider hprovider
        have hnone := List.find?_eq_none.mp hfind provider (List.mem_append_left _ hprovider)
        simpa using hnone
      set q := Request.createProvider (mcpProviderName handle) E.streamableHttpProviderKey
        (some origin)
      have hserve : t.serve q = _ := Tenant.createProvider_free hfree _ _
      -- a row that is created is new, and the guard is not met
      have hcreated : Prepared handle t (t.serve q).2 False := by
        refine ⟨h.serve q, ?_, False.elim, fun _ => ?_⟩
        · rw [hserve]
          rfl
        · rw [hserve]
          refine ⟨_, List.mem_cons_self, rfl, fun hmem => ?_⟩
          exact absurd (h.providers.below _ hmem) (Nat.lt_irrefl _)
      refine (Client.decides_bind _ _).mpr (decides_request ?_ ?_ ?_ ?_)
      · intro d message hlands
        exact hrefl.of_iff (iff_of_true ⟨trivial, hlands⟩ trivial)
      · intro message
        refine hcreated.of_iff (iff_of_false (fun hmet => ?_) id)
        exact Bool.noConfusion (hmet.2 : true = false)
      · intro message hfailed
        exact absurd (congrArg Prod.fst hserve) (hfailed _)
      · intro created _
        refine (Client.decides_done _).mpr (hcreated.of_iff (iff_of_false (fun hmet => ?_) id))
        exact Bool.noConfusion (hmet.2.1 : true = false)

/-- No row of the server is there that was not there before. -/
def LeavesNothing (handle : String) (t v : Tenant S) : Prop :=
  NoNewProvider (mcpProviderName handle) t v ∧ NoNewCredential (mcpCredentialName handle) t v

lemma Prepared.leaves {handle : String} {met met' : Prop} (h : Prepared handle t u met)
    (hproviders : v.providers = u.providers)
    (hcredentials : met' ↔ NoNewCredential (mcpCredentialName handle) u v) :
    LeavesNothing handle t v ↔ met ∧ met' := by
  have hsame : NoNewCredential (mcpCredentialName handle) u v ↔
      NoNewCredential (mcpCredentialName handle) t v := by
    unfold NoNewCredential
    rw [h.credentials]
  rw [LeavesNothing, ← hsame, ← hcredentials]
  refine and_congr_left' ⟨fun hnone => ?_, fun hmet row hrow _ => ?_⟩
  · by_contra hmet
    obtain ⟨row, hrow, hname, hnew⟩ := h.created hmet
    exact hnew (hnone row (hproviders ▸ hrow) hname)
  · rw [hproviders, h.kept hmet] at hrow
    exact hrow

/-- A failed add by URL. -/
lemma addMcpServer_leaves_iff (E : McpPackages) (h : t.Consistent) (input : AddMcpServerInput)
    (ds : List Delivery) (e : String)
    (hfails : ((addMcpServer E input).exec Tenant.serve ds t).1 = .error e) :
    LeavesNothing input.handle t ((addMcpServer E input).exec Tenant.serve ds t).2 ↔
      (addMcpServer E input).Follows Tenant.serve Undone ds t := by
  have hdecides : Client.Decides Tenant.serve Undone (addMcpServer E input)
      (fun result v met => ∀ e, result = .error e →
        (LeavesNothing input.handle t v ↔ met)) t := by
    refine (Client.decides_bind _ _).mpr
      ((decides_ensureMcpProvider E h input.handle input.url).mono ?_)
    rintro (message | providerId) u met hprepared
    · intro e _
      rw [hprepared.leaves rfl (iff_of_true trivial fun _ hrow _ => hrow), and_true]
    · refine (decides_store hprepared.consistent providerId _ _ _ _ _ _).mono ?_
      intro result v met' hstored e he
      obtain ⟨hproviders, hcredentials⟩ := hstored e he
      exact hprepared.leaves hproviders hcredentials
  exact hdecides ds e hfails

/-- The sign-in was started on `t`, and its login has stored a credential, which leaves `u`. -/
structure SignedIn (E : McpPackages) (input : McpSignInInput) (ds : List Delivery) (t u : Tenant S)
    (credentialId providerId : Id) : Prop where
  completed : ∃ signIn login secret rest,
    ((startMcpSignIn E input).exec Tenant.serve ds t).1 = .ok signIn ∧
    signIn.providerId = providerId ∧
    login ∈ ((startMcpSignIn E input).exec Tenant.serve ds t).2.logins ∧
    login.id = signIn.loginId ∧
    u = ((startMcpSignIn E input).exec Tenant.serve ds t).2.completeLogin login secret rest ∧
    ∃ other ∈ u.logins, other.id = login.id ∧ other.credentialId = some credentialId

lemma Prepared.congr {handle : String} {met : Prop} (h : Prepared handle t u met)
    (hv : v.Consistent) (hproviders : v.providers = u.providers)
    (hcredentials : v.credentials = u.credentials) : Prepared handle t v met where
  consistent := hv
  credentials := hcredentials.trans h.credentials
  kept hmet := hproviders.trans (h.kept hmet)
  created hmet := by
    rw [hproviders]
    exact h.created hmet

/-- A login that the sign-in has started carries the server's names, and no credential yet. -/
lemma decides_startMcpSignIn (E : McpPackages) (h : t.Consistent) (input : McpSignInInput) :
    Client.Decides Tenant.serve Undone (startMcpSignIn E input) (fun result v met =>
      Prepared input.handle t v met ∧ ∀ signIn, result = .ok signIn →
        ∀ login ∈ v.logins, login.id = signIn.loginId →
          login.credentialName = mcpCredentialName input.handle ∧ login.credentialId = none) t := by
  refine (Client.decides_bind _ _).mpr
    ((decides_ensureMcpProvider E h input.handle input.url).mono ?_)
  rintro (message | providerId) u met hprepared
  · exact ⟨hprepared, fun _ hok => by cases hok⟩
  set q := Request.startLogin input.url providerId (mcpCredentialName input.handle)
  have hrows :=
    Tenant.startLogin_rows (t := u) input.url providerId (mcpCredentialName input.handle)
  have hafter : Prepared input.handle t (u.serve q).2 met :=
    hprepared.congr (hprepared.consistent.serve q) hrows.1 hrows.2
  refine (Client.decides_bind _ _).mpr (decides_request ?_ ?_ ?_ ?_)
  · exact fun d message _ => ⟨hprepared.of_iff (and_true _ ▸ Iff.rfl), fun _ hok => by cases hok⟩
  · exact fun message => ⟨hafter.of_iff (and_true _ ▸ Iff.rfl), fun _ hok => by cases hok⟩
  · exact fun message _ => ⟨hafter.of_iff (and_true _ ▸ Iff.rfl), fun _ hok => by cases hok⟩
  · intro started hstarted
    obtain ⟨hid, hlogins⟩ := Tenant.startLogin_ok hstarted
    refine (Client.decides_done _).mpr ⟨hafter.of_iff (by simp [Undone]), ?_⟩
    rintro _ ⟨⟩ login hlogin (heq : login.id = started.1)
    rw [show (u.serve q).2 = _ from hlogins] at hlogin
    rcases List.mem_cons.mp hlogin with rfl | hlogin
    · exact ⟨rfl, rfl⟩
    · have hlt := hprepared.consistent.logins.below login hlogin
      rw [heq, hid] at hlt
      exact absurd hlt (Nat.lt_irrefl _)

/-- A failed add of a server that was signed in to. -/
lemma addSignedInMcpServer_leaves_iff (E : McpPackages) (h : t.Consistent)
    (input : McpSignInInput) (started ds : List Delivery) (credentialId providerId : Id)
    (e : String) (hsigned : SignedIn E input started t u credentialId providerId)
    (hfails : ((addSignedInMcpServer input credentialId providerId).exec Tenant.serve ds u).1 =
      .error e) :
    LeavesNothing input.handle t
        ((addSignedInMcpServer input credentialId providerId).exec Tenant.serve ds u).2 ↔
      (startMcpSignIn E input).Follows Tenant.serve Undone started t ∧
        (addSignedInMcpServer input credentialId providerId).Follows Tenant.serve Undone ds u := by
  obtain ⟨signIn, login, secret, rest, hok, -, hlogin, hid, rfl, hcompleted⟩ := hsigned.completed
  obtain ⟨hprepared, hlogins⟩ := decides_startMcpSignIn E h input started
  set w := ((startMcpSignIn E input).exec Tenant.serve started t).2
  have hnone : ∀ other ∈ w.logins, other.id = login.id → other.credentialId = none :=
    fun other hother heq => (hlogins signIn hok other hother (heq.trans hid)).2
  obtain ⟨row, hrow, rfl, logins, hafter⟩ := Tenant.completeLogin_stored hnone hcompleted
  obtain ⟨hdroppable, hname, hfresh⟩ := droppable_created hprepared.consistent hrow
  rw [(hlogins signIn hok login hlogin hid).1] at hname
  obtain ⟨-, hcreated⟩ := Tenant.createCredential_ok hrow
  rw [hafter] at hfails ⊢
  rw [hcreated] at hdroppable
  set x : Tenant S := { w.bump with credentials := row :: w.credentials, logins := logins }
  have hdroppable : Droppable row.id row.name x := ⟨hdroppable.stored, hdroppable.unused⟩
  have hdecides : Client.Decides Tenant.serve Undone
      (addSignedInMcpServer input row.id providerId)
      (fun result v met => ∀ e, result = .error e → Dropped row.id row.name x v met) x := by
    refine (Client.decides_bind _ _).mpr (decides_request ?_ ?_ ?_ ?_)
    · intro d message hlands _ _
      refine hdroppable.stays.of_iff (iff_of_false (fun hmet => ?_) id)
      rw [show d = .answered from hmet] at hlands
      cases hlands
    · exact fun message _ _ => hdroppable.stays.of_iff (iff_of_false (fun hmet => by cases hmet) id)
    · exact fun message hfailed => absurd rfl (hfailed _)
    · rintro credentials -
      refine (decides_recordCatalog hdroppable _ _ _ _ _ _).mono ?_
      intro result v met hdropped e he
      exact (hdropped e he).of_iff ⟨fun hmet => hmet.2, fun hmet => ⟨rfl, hmet⟩⟩
  have hdropped := hdecides ds e hfails
  refine hprepared.leaves hdropped.providers ?_
  rw [← hname]
  exact hdropped.noNew rfl hfresh

/-- **A failed add leaves nothing behind** exactly when all its requests were undone or never
there; so does a sign-in whose add fails. -/
theorem failed_add_leaves_nothing_iff {S : Services} (E : McpPackages) (t : Tenant S)
    (h : t.Consistent) :
    (∀ input ds e, ((addMcpServer E input).exec Tenant.serve ds t).1 = .error e →
      (LeavesNothing input.handle t ((addMcpServer E input).exec Tenant.serve ds t).2 ↔
        (addMcpServer E input).Follows Tenant.serve Undone ds t)) ∧
    ∀ input started u credentialId providerId ds e,
      SignedIn E input started t u credentialId providerId →
      ((addSignedInMcpServer input credentialId providerId).exec Tenant.serve ds u).1 = .error e →
      (LeavesNothing input.handle t
          ((addSignedInMcpServer input credentialId providerId).exec Tenant.serve ds u).2 ↔
        (startMcpSignIn E input).Follows Tenant.serve Undone started t ∧
          (addSignedInMcpServer input credentialId providerId).Follows Tenant.serve Undone ds u) :=
  ⟨fun input ds e => addMcpServer_leaves_iff E h input ds e,
    fun input started _ credentialId providerId ds e hsigned =>
      addSignedInMcpServer_leaves_iff E h input started ds credentialId providerId e hsigned⟩

end FailedAdd

/-- Packages that know two URLs. -/
def knownPackages : McpPackages where
  origin url :=
    if url = "https://a.example/mcp" then some "https://a.example"
    else if url = "https://b.example/mcp" then some "https://b.example"
    else none
  streamableHttpProviderKey := "mcp-streamable-http"
  noTokenSentinel := "none"
  localeCompare := compare

/-- A hub at which every discovery finds a server without tools. -/
abbrev openHub : Services := ledger fun _ _ => some []

def emptyTenant : Tenant openHub := Tenant.empty (S := openHub) []

def serverAt (url : String) : AddMcpServerInput := ⟨"docs", "Docs", url, none⟩

/-- A tenant on which the server was added and removed, but for its provider row. -/
def withProvider : Tenant openHub :=
  { emptyTenant.bump with
    providers := [⟨0, "mcp-docs", "mcp-streamable-http", some "https://a.example"⟩] }

lemma withProvider_consistent : withProvider.Consistent :=
  (Tenant.Consistent.empty _).serve
    (.createProvider "mcp-docs" "mcp-streamable-http" (some "https://a.example"))

/-- The handshake fails, and the credential is dropped again. -/
theorem failed_add_leaves_nothing_handshake :
    LeavesNothing "docs" withProvider
      ((addMcpServer knownPackages (serverAt "https://a.example/mcp")).exec Tenant.serve
        [.answered, .answered, .refused] withProvider).2 := by
  refine ((failed_add_leaves_nothing_iff knownPackages withProvider withProvider_consistent).1
    (serverAt "https://a.example/mcp") [.answered, .answered, .refused]
    "this server could not be reached" ?_).mpr ?_
  · decide +kernel
  · refine ⟨trivial, ?_, trivial, rfl, trivial⟩
    exact fun hlost => by cases hlost

/-- **The provider row of a failed add stays.** The store of the credential is refused. -/
theorem failed_add_leaves_provider :
    (∃ e, ((addMcpServer knownPackages (serverAt "https://a.example/mcp")).exec Tenant.serve
      [.answered, .answered, .refused] emptyTenant).1 = .error e) ∧
    ¬ LeavesNothing "docs" emptyTenant
      ((addMcpServer knownPackages (serverAt "https://a.example/mcp")).exec Tenant.serve
        [.answered, .answered, .refused] emptyTenant).2 := by
  refine ⟨⟨"storing the docs server failed", by decide +kernel⟩, fun h => ?_⟩
  have hrow := h.1 ⟨0, "mcp-docs", "mcp-streamable-http", some "https://a.example"⟩
    (by decide +kernel) (by decide +kernel)
  cases hrow

end Workbench.Web
