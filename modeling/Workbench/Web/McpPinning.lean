import Workbench.Web.McpServers

/-!
Origin pinning: the provider row of a stored server has the origin of the server's URL.

Provider rows are found by a name made from the handle, and a removal only tries to delete the row.
A row that is left from one URL is taken for another; the runs in which that never happens keep
the pinning.
-/

namespace Workbench.Web

open Workbench.Lib

variable {S : Services} {E : McpPackages} {s t u : Tenant S}

/-! ### Histories -/

/-- The states that adds, sign-ins and removals leave behind, one after the other, whatever request
fails. `G` says on which tenants a server may be added or signed in to. A sign-in is started, its
login completes, and its server is added; other calls may come between these. -/
inductive McpHistory (E : McpPackages) (G : Tenant S → (handle url : String) → Prop)
    (s : Tenant S) : Tenant S → Prop
  | refl : McpHistory E G s s
  | add {t u : Tenant S} {result : Except String McpServer} (input : AddMcpServerInput) :
    McpHistory E G s t → G t input.handle input.url →
    Client.Runs Tenant.serve Client.anyDelivery (addMcpServer E input) t result u →
    McpHistory E G s u
  | startSignIn {t u : Tenant S} {result : Except String McpSignIn} (input : McpSignInInput) :
    McpHistory E G s t → G t input.handle input.url →
    Client.Runs Tenant.serve Client.anyDelivery (startMcpSignIn E input) t result u →
    McpHistory E G s u
  | completeSignIn {t : Tenant S} (login : Login) (secret : String)
    (rest : List (String × String)) :
    McpHistory E G s t → login ∈ t.logins → McpHistory E G s (t.completeLogin login secret rest)
  | addSignedIn {t u : Tenant S} {result : Except String McpServer} (input : McpSignInInput)
    (login : Login) (credentialId : Id) :
    McpHistory E G s t → login ∈ t.logins → login.resourceUrl = input.url →
    login.credentialName = mcpCredentialName input.handle →
    login.credentialId = some credentialId →
    Client.Runs Tenant.serve Client.anyDelivery
      (addSignedInMcpServer input credentialId login.providerId) t result u →
    McpHistory E G s u
  | remove {t u : Tenant S} {result : Except String Unit} (credentialId providerId : Id) :
    McpHistory E G s t →
    Client.Runs Tenant.serve Client.anyDelivery (removeMcpServer credentialId providerId) t
      result u →
    McpHistory E G s u

/-! ### Pinning -/

/-- The base URL of the row is the origin of the URL. -/
def PinnedTo (E : McpPackages) (url : String) (provider : Provider) : Prop :=
  ∃ origin, E.origin url = some origin ∧ provider.apiBaseUrl = some origin

/-- A provider row of the handle's name that the tenant sees has the URL's origin. -/
def FindsPinned (E : McpPackages) (t : Tenant S) (handle url : String) : Prop :=
  ∀ provider ∈ t.visibleProviders, provider.name = mcpProviderName handle → PinnedTo E url provider

/-- The provider row with this id, if it is there, has the URL's origin. -/
def OnPinned (E : McpPackages) (t : Tenant S) (providerId : Id) (url : String) : Prop :=
  ∀ provider ∈ t.providers ++ t.inherited, provider.id = providerId → PinnedTo E url provider

/-- Stored servers and logins sit on pinned rows. -/
structure Pins (E : McpPackages) (t : Tenant S) : Prop where
  consistent : t.Consistent
  servers : ∀ credential ∈ t.credentials, ∀ stored, credential.metadata.mcp = some stored →
    OnPinned E t credential.providerId stored.url
  logins : ∀ login ∈ t.logins, OnPinned E t login.providerId login.resourceUrl
  loginCredentials : ∀ login ∈ t.logins, ∀ id, login.credentialId = some id → id < t.nextId ∧
    ∀ credential ∈ t.credentials, credential.id = id → credential.providerId = login.providerId

/-- No provider row is new but perhaps with a new id. -/
lemma OnPinned.mono {providerId : Id} {url : String} (h : OnPinned E t providerId url)
    (hrows : ∀ provider ∈ u.providers ++ u.inherited, provider.id = providerId →
      provider ∈ t.providers ++ t.inherited) : OnPinned E u providerId url :=
  fun provider hprovider hid => h provider (hrows provider hprovider hid) hid

/-- A change of other tables, or one that takes rows away. -/
lemma Pins.of_subset (h : Pins E t) (hu : u.Consistent)
    (hproviders : ∀ provider ∈ u.providers ++ u.inherited, provider ∈ t.providers ++ t.inherited)
    (hcredentials : ∀ credential ∈ u.credentials, credential ∈ t.credentials)
    (hlogins : u.logins = t.logins) (hnext : t.nextId ≤ u.nextId) : Pins E u where
  consistent := hu
  servers credential hc stored hstored :=
    (h.servers credential (hcredentials credential hc) stored hstored).mono
      fun provider hprovider _ => hproviders provider hprovider
  logins login hl := by
    rw [hlogins] at hl
    exact (h.logins login hl).mono fun provider hprovider _ => hproviders provider hprovider
  loginCredentials login hl id hid := by
    rw [hlogins] at hl
    obtain ⟨hlt, hrow⟩ := h.loginCredentials login hl id hid
    exact ⟨Nat.lt_of_lt_of_le hlt hnext,
      fun credential hc => hrow credential (hcredentials credential hc)⟩

lemma Pins.createProvider (h : Pins E t) (name plugin : String) (apiBaseUrl : Option String) :
    Pins E (t.createProvider name plugin apiBaseUrl).2 := by
  have hconsistent : (t.createProvider name plugin apiBaseUrl).2.Consistent :=
    h.consistent.serve (.createProvider name plugin apiBaseUrl)
  unfold Tenant.createProvider at hconsistent ⊢
  split_ifs at hconsistent ⊢
  · exact h
  -- the new row has a new id, which nothing refers to
  have hold : ∀ id < t.nextId, ∀ provider ∈ (⟨t.nextId, name, plugin, apiBaseUrl⟩ : Provider) ::
      t.providers ++ t.inherited, provider.id = id → provider ∈ t.providers ++ t.inherited := by
    intro id hlt provider hprovider hid
    rcases List.mem_cons.mp hprovider with rfl | hprovider
    · exact absurd hid (Nat.ne_of_gt hlt)
    · exact hprovider
  refine ⟨hconsistent, ?_, ?_, ?_⟩
  · intro credential hc stored hstored
    exact (h.servers credential hc stored hstored).mono
      (hold _ (h.consistent.credentialProvider credential hc))
  · intro login hl
    exact (h.logins login hl).mono (hold _ (h.consistent.loginProvider login hl))
  · intro login hl id hid
    obtain ⟨hlt, hrow⟩ := h.loginCredentials login hl id hid
    exact ⟨Nat.lt_succ_of_lt hlt, hrow⟩

lemma Pins.createCredential (h : Pins E t) (providerId : Id) (name secret : String)
    (metadata : Metadata)
    (hpinned : ∀ stored, metadata.mcp = some stored → OnPinned E t providerId stored.url) :
    Pins E (t.createCredential providerId name secret metadata).2 := by
  have hconsistent := h.consistent.createCredential providerId name secret metadata
  unfold Tenant.createCredential at hconsistent ⊢
  split_ifs at hconsistent ⊢
  · exact h
  · exact h
  refine ⟨hconsistent, ?_, h.logins, ?_⟩
  · intro credential hc stored hstored
    rcases List.mem_cons.mp hc with rfl | hc
    · exact hpinned stored hstored
    · exact h.servers credential hc stored hstored
  · intro login hl id hid
    obtain ⟨hlt, hrow⟩ := h.loginCredentials login hl id hid
    refine ⟨Nat.lt_succ_of_lt hlt, fun credential hc heq => ?_⟩
    rcases List.mem_cons.mp hc with rfl | hc
    · exact absurd heq (Nat.ne_of_gt hlt)
    · exact hrow credential hc heq

lemma Pins.patchCredential (h : Pins E t) (id : Id) (metadata : Metadata)
    (hpinned : ∀ stored, metadata.mcp = some stored → ∀ credential ∈ t.credentials,
      credential.id = id → OnPinned E t credential.providerId stored.url) :
    Pins E (t.patchCredential id metadata).2 := by
  have hconsistent : (t.patchCredential id metadata).2.Consistent :=
    h.consistent.serve (.patchCredential id metadata)
  unfold Tenant.patchCredential at hconsistent ⊢
  cases hfind : t.credentials.find? (·.id = id) with
  | none => exact h
  | some found =>
    rw [hfind] at hconsistent
    refine ⟨hconsistent, ?_, h.logins, ?_⟩
    · intro credential hc stored hstored
      obtain ⟨row, hrow, rfl⟩ := List.mem_map.mp hc
      by_cases hid : row.id = id
      · rw [if_pos hid] at hstored ⊢
        exact hpinned stored hstored row hrow hid
      · rw [if_neg hid] at hstored ⊢
        exact h.servers row hrow stored hstored
    · intro login hl other hother
      obtain ⟨hlt, hrows⟩ := h.loginCredentials login hl other hother
      refine ⟨hlt, fun credential hc heq => ?_⟩
      obtain ⟨row, hrow, rfl⟩ := List.mem_map.mp hc
      have hrows := hrows row hrow
      split at heq
      · rw [if_pos ‹_›]
        exact hrows heq
      · rw [if_neg ‹_›]
        exact hrows heq

lemma Pins.deleteCredential (h : Pins E t) (id : Id) :
    Pins E (t.deleteCredential id).2 := by
  have hconsistent : (t.deleteCredential id).2.Consistent :=
    h.consistent.serve (.deleteCredential id)
  unfold Tenant.deleteCredential at hconsistent ⊢
  split_ifs at hconsistent ⊢
  · exact h
  · exact h
  · exact h.of_subset hconsistent (fun _ hp => hp) (fun _ hc => List.mem_of_mem_filter hc) rfl
      le_rfl

lemma Pins.deleteProvider (h : Pins E t) (id : Id) :
    Pins E (t.deleteProvider id).2 := by
  have hconsistent : (t.deleteProvider id).2.Consistent :=
    h.consistent.serve (.deleteProvider id)
  unfold Tenant.deleteProvider at hconsistent ⊢
  split_ifs at hconsistent ⊢
  · exact h
  · exact h
  · refine h.of_subset hconsistent (fun provider hp => ?_)
      (fun _ hc => List.mem_of_mem_filter hc) rfl le_rfl
    rcases List.mem_append.mp hp with hown | hinherited
    · exact List.mem_append_left _ (List.mem_of_mem_filter hown)
    · exact List.mem_append_right _ hinherited

lemma Pins.startLogin (h : Pins E t) (url : String) (providerId : Id) (name : String)
    (hpinned : OnPinned E t providerId url) :
    Pins E (t.startLogin url providerId name).2 := by
  have hconsistent : (t.startLogin url providerId name).2.Consistent :=
    h.consistent.serve (.startLogin url providerId name)
  unfold Tenant.startLogin at hconsistent ⊢
  split_ifs at hconsistent ⊢
  · exact h
  refine ⟨hconsistent, h.servers, ?_, ?_⟩
  · intro login hl
    rcases List.mem_cons.mp hl with rfl | hl
    · exact hpinned
    · exact h.logins login hl
  · intro login hl id hid
    rcases List.mem_cons.mp hl with rfl | hl
    · cases hid
    · obtain ⟨hlt, hrow⟩ := h.loginCredentials login hl id hid
      exact ⟨Nat.lt_succ_of_lt hlt, hrow⟩

lemma Pins.completeLogin (h : Pins E t) {login : Login} (hlogin : login ∈ t.logins)
    (secret : String) (rest : List (String × String)) :
    Pins E (t.completeLogin login secret rest) := by
  have hcreate := h.createCredential login.providerId login.credentialName secret { rest := rest }
    fun _ hnone => by cases hnone
  rcases t.completeLogin_cases login secret rest with hsame | ⟨row, hrow, hafter⟩
  · rw [hsame]
    exact h
  obtain ⟨hfields, hcreated⟩ := Tenant.createCredential_ok hrow
  rw [hcreated] at hcreate
  rw [hafter]
  refine ⟨?_, hcreate.servers, ?_, ?_⟩
  · have hc := hcreate.consistent
    refine { hc with
      logins := hc.logins.map (fun other => ?_) fun other => ?_
      loginProvider := fun other hother => ?_ }
    · split <;> rfl
    · split <;> rfl
    · obtain ⟨before, hbefore, rfl⟩ := List.mem_map.mp hother
      have := hc.loginProvider before hbefore
      split <;> exact this
  · intro other hother
    obtain ⟨before, hbefore, rfl⟩ := List.mem_map.mp hother
    have hpinned := hcreate.logins before hbefore
    split <;> exact hpinned
  · intro other hother id hid
    obtain ⟨before, hbefore, rfl⟩ := List.mem_map.mp hother
    by_cases heq : before.id = login.id
    · -- the login that completes names the row just stored
      obtain rfl := h.consistent.logins.eq_of_id hbefore hlogin heq
      rw [if_pos rfl] at hid ⊢
      obtain rfl := Option.some.inj hid
      refine ⟨by rw [hfields]; exact Nat.lt_succ_self _, fun credential hc hcid => ?_⟩
      obtain rfl := hcreate.consistent.credentials.eq_of_id hc List.mem_cons_self hcid
      rw [hfields]
    · rw [if_neg heq] at hid ⊢
      exact hcreate.loginCredentials before hbefore id hid

/-! ### The calls -/

lemma ensures_ensureMcpProvider (h : Pins E t) {handle url : String}
    (hfinds : FindsPinned E t handle url) :
    Client.Ensures Tenant.serve Client.anyDelivery (ensureMcpProvider E handle url)
      (fun result u => Pins E u ∧ ∀ id, result = .ok id → OnPinned E u id url) t := by
  refine (Client.ensures_bind _ _).mpr (ensures_request_keeps h h ?_ fun _ _ hu =>
    ⟨hu, fun _ hok => by cases hok⟩)
  rintro _ - ⟨⟩
  dsimp only
  cases hfind : t.visibleProviders.find? (·.name = mcpProviderName handle) with
  | some existing =>
    refine (Client.ensures_done _).mpr ⟨h, ?_⟩
    rintro _ ⟨⟩ provider hprovider hid
    have hvisible := List.mem_of_find?_eq_some hfind
    obtain rfl := h.consistent.provider_eq hprovider
      (Tenant.mem_of_mem_visibleProviders hvisible) hid
    exact hfinds provider hvisible (by simpa using List.find?_some hfind)
  | none =>
    cases horigin : E.origin url with
    | none => exact (Client.ensures_done _).mpr ⟨h, fun _ hok => by cases hok⟩
    | some origin =>
      have hcreate := h.createProvider (mcpProviderName handle) E.streamableHttpProviderKey
        (some origin)
      refine (Client.ensures_bind _ _).mpr (ensures_request_keeps h hcreate ?_ fun _ _ hu =>
        ⟨hu, fun _ hok => by cases hok⟩)
      intro created _ hcreated
      obtain ⟨hfields, hafter⟩ := @Tenant.createProvider_ok S t _ _ _ created hcreated
      refine (Client.ensures_done _).mpr ⟨hcreate, ?_⟩
      rintro _ ⟨⟩ provider hprovider hid
      have hmem : created ∈ (t.createProvider (mcpProviderName handle)
          E.streamableHttpProviderKey (some origin)).2.providers := by
        rw [hafter]
        exact List.mem_cons_self
      obtain rfl := hcreate.consistent.provider_eq hprovider (List.mem_append_left _ hmem) hid
      exact ⟨origin, horigin, by rw [hfields]⟩

lemma ensures_deleteCredential (h : Pins E t) (id : Id) :
    Client.Ensures Tenant.serve Client.anyDelivery (deleteCredential id) (fun _ => Pins E) t := by
  have hdelete : Pins E (t.serve (.deleteCredential id)).2 := h.deleteCredential id
  refine Client.ensures_ask_keeps h hdelete ?_
  rintro (_ | _ | _) u hu <;> exact (Client.ensures_done _).mpr hu

lemma ensures_drop (h : Pins E t) (id : Id) (cause : String) :
    Client.Ensures Tenant.serve Client.anyDelivery
      ((deleteCredential id).bind fun _ => (.fail cause : Call McpServer)) (fun _ => Pins E) t := by
  refine (Client.ensures_bind _ _).mpr ((ensures_deleteCredential h id).mono ?_)
  rintro (_ | _) u hu
  · exact hu
  · exact (Client.ensures_done _).mpr hu

lemma ensures_recordCatalog (h : Pins E t) {credentialId : Id} {url : String}
    (hrow : ∀ credential ∈ t.credentials, credential.id = credentialId →
      OnPinned E t credential.providerId url)
    (providerId : Id) (handle name : String) (auth : McpAuthKind) (existing : Metadata) :
    Client.Ensures Tenant.serve Client.anyDelivery
      (recordCatalog credentialId providerId handle name url auth existing)
      (fun _ => Pins E) t := by
  refine (Client.ensures_andThen _ _).mpr (ensures_request_keeps h h ?_ fun cause u hu => ?_)
  · intro tools _ _
    have hpatch : Pins E (t.serve (.patchCredential credentialId
        { existing with mcp := some ⟨handle, name, url, auth, tools⟩ })).2 := by
      refine h.patchCredential credentialId _ ?_
      rintro _ ⟨⟩
      exact hrow
    refine Client.ensures_ask_keeps h hpatch ?_
    rintro ((_ | _ | _ | _) | _ | _) u hu
    · exact (Client.ensures_done _).mpr hu
    · exact ensures_drop hu _ _
    · exact ensures_drop hu _ _
    · exact ensures_drop hu _ _
    · exact ensures_drop hu _ _
    · exact (Client.ensures_done _).mpr hu
  · exact ensures_drop hu _ _

lemma ensures_addMcpServer (h : Pins E t) {input : AddMcpServerInput}
    (hfinds : FindsPinned E t input.handle input.url) :
    Client.Ensures Tenant.serve Client.anyDelivery (addMcpServer E input) (fun _ => Pins E) t := by
  refine (Client.ensures_bind _ _).mpr ((ensures_ensureMcpProvider h hfinds).mono ?_)
  rintro (_ | providerId) u ⟨hu, hpinned⟩
  · exact hu
  have hpinned := hpinned providerId rfl
  refine (Client.ensures_bind _ _).mpr ((Client.ensures_bind _ _).mpr ?_)
  refine ensures_request_keeps hu (hu.createCredential _ _ _ _ ?_) ?_ fun _ _ hv => hv
  · rintro _ ⟨⟩
    exact hpinned
  · intro stored _ hstored
    obtain ⟨hfields, hafter⟩ := Tenant.createCredential_ok hstored
    have hv := hu.createCredential providerId (mcpCredentialName input.handle)
      (input.token.getD E.noTokenSentinel) { mcp := some ⟨input.handle, input.name, input.url,
        if input.token.isNone then .none else .token, []⟩ } (by rintro _ ⟨⟩; exact hpinned)
    refine (Client.ensures_done _).mpr (ensures_recordCatalog hv ?_ _ _ _ _ _)
    rw [hafter]
    intro credential hc hid
    have hc' := hv.consistent.credentials
    rw [hafter] at hc'
    obtain rfl := hc'.eq_of_id hc List.mem_cons_self hid
    rw [hfields]
    exact hpinned

lemma ensures_startMcpSignIn (h : Pins E t) {input : McpSignInInput}
    (hfinds : FindsPinned E t input.handle input.url) :
    Client.Ensures Tenant.serve Client.anyDelivery (startMcpSignIn E input)
      (fun _ => Pins E) t := by
  refine (Client.ensures_bind _ _).mpr ((ensures_ensureMcpProvider h hfinds).mono ?_)
  rintro (_ | providerId) u ⟨hu, hpinned⟩
  · exact hu
  have hstart : Pins E (u.serve (.startLogin input.url providerId
      (mcpCredentialName input.handle))).2 := hu.startLogin _ _ _ (hpinned providerId rfl)
  refine (Client.ensures_bind _ _).mpr (ensures_request_keeps hu hstart ?_ fun _ _ hv => hv)
  exact fun _ _ _ => (Client.ensures_done _).mpr hstart

lemma ensures_addSignedInMcpServer (h : Pins E t) {input : McpSignInInput} {login : Login}
    {credentialId : Id} (hlogin : login ∈ t.logins) (hurl : login.resourceUrl = input.url)
    (hcredential : login.credentialId = some credentialId) :
    Client.Ensures Tenant.serve Client.anyDelivery
      (addSignedInMcpServer input credentialId login.providerId) (fun _ => Pins E) t := by
  refine (Client.ensures_bind _ _).mpr (ensures_request_keeps h h ?_ fun _ _ hu => hu)
  intro credentials _ _
  refine ensures_recordCatalog h (fun credential hc hid => ?_) _ _ _ _ _
  rw [(h.loginCredentials login hlogin credentialId hcredential).2 credential hc hid, ← hurl]
  exact h.logins login hlogin

lemma ensures_removeMcpServer (h : Pins E t) (credentialId providerId : Id) :
    Client.Ensures Tenant.serve Client.anyDelivery (removeMcpServer credentialId providerId)
      (fun _ => Pins E) t := by
  have hdelete : Pins E (t.serve (.deleteCredential credentialId)).2 :=
    h.deleteCredential credentialId
  refine (Client.ensures_bind _ _).mpr (ensures_request_keeps h hdelete ?_ fun _ _ hu => hu)
  intro _ _ _
  have hlast : Pins E ((t.serve (.deleteCredential credentialId)).2.serve
    (.deleteProvider providerId)).2 := hdelete.deleteProvider providerId
  refine Client.ensures_ask_keeps hdelete hlast ?_
  rintro (_ | _ | _) u hu <;> exact (Client.ensures_done _).mpr hu

/-- Every history whose calls find pinned rows keeps the pinning. -/
lemma McpHistory.pins (hs : Pins E s) (h : McpHistory E (FindsPinned E) s t) : Pins E t := by
  induction h with
  | refl => exact hs
  | add input _ hfinds hrun ih => exact ensures_addMcpServer ih hfinds _ _ hrun
  | startSignIn input _ hfinds hrun ih => exact ensures_startMcpSignIn ih hfinds _ _ hrun
  | completeSignIn login secret rest _ hlogin ih => exact ih.completeLogin hlogin secret rest
  | addSignedIn input login credentialId _ hlogin hurl _ hcredential hrun ih =>
    exact ensures_addSignedInMcpServer ih hlogin hurl hcredential _ _ hrun
  | remove credentialId providerId _ hrun ih =>
    exact ensures_removeMcpServer ih credentialId providerId _ _ hrun

lemma storedServer_some {providers : List Provider} {credential : Credential} {server : McpServer}
    (h : storedServer E providers credential = some server) :
    (∃ provider ∈ providers, provider.id = server.providerId) ∧
      server.providerId = credential.providerId ∧
      ∃ stored, credential.metadata.mcp = some stored ∧ stored.url = server.url := by
  unfold storedServer at h
  split_ifs at h with hany
  obtain ⟨stored, hstored, rfl⟩ := Option.map_eq_some_iff.mp h
  obtain ⟨provider, hprovider, hrow⟩ := List.any_eq_true.mp hany
  refine ⟨⟨provider, hprovider, (of_decide_eq_true hrow).2⟩, rfl, stored, ?_, rfl⟩
  exact (Option.filter_eq_some_iff.mp hstored).1

lemma ensures_listMcpServers {G : Tenant S → Request → Delivery → Prop} :
    Client.Ensures Tenant.serve G (listMcpServers E) (fun result u => u = t ∧
      ∀ servers, result = .ok servers → ∀ server ∈ servers, ∃ credential ∈ t.credentials,
        storedServer E t.visibleProviders credential = some server) t := by
  refine (Client.ensures_bind _ _).mpr (ensures_request_keeps (I := (· = t)) rfl rfl ?_
    fun _ _ hu => ⟨hu, fun _ hok => by cases hok⟩)
  rintro _ - ⟨⟩
  refine (Client.ensures_bind _ _).mpr (ensures_request_keeps (I := (· = t)) rfl rfl ?_
    fun _ _ hu => ⟨hu, fun _ hok => by cases hok⟩)
  rintro _ - ⟨⟩
  refine (Client.ensures_done _).mpr ⟨rfl, ?_⟩
  rintro _ ⟨⟩ server hserver
  rw [List.mem_insertionSort] at hserver
  obtain ⟨credential, hmem, hsome⟩ := List.mem_filterMap.mp hserver
  exact ⟨credential, List.mem_of_mem_take hmem, hsome⟩

/-- **Origin pinning.** Where adds and sign-ins find only rows of their URL's origin, the provider
row of each server that is listed has the origin of the server's URL. -/
theorem origin_pinned {S : Services} (E : McpPackages) {s t u : Tenant S} (hs : Pins E s)
    (h : McpHistory E (FindsPinned E) s t) {servers : List McpServer}
    (hlist : Client.Runs Tenant.serve Client.anyDelivery (listMcpServers E) t (.ok servers) u)
    {server : McpServer} (hserver : server ∈ servers) :
    (∃ provider ∈ t.visibleProviders, provider.id = server.providerId) ∧
      OnPinned E t server.providerId server.url := by
  obtain ⟨-, hlisted⟩ := ensures_listMcpServers _ _ hlist
  obtain ⟨credential, hc, hsome⟩ := hlisted servers rfl server hserver
  obtain ⟨hrow, hprovider, stored, hstored, hurl⟩ := storedServer_some hsome
  refine ⟨hrow, ?_⟩
  rw [hprovider, ← hurl]
  exact (h.pins hs).servers credential hc stored hstored

/-! ### A row taken for another -/

lemma pins_emptyTenant : Pins knownPackages emptyTenant := by
  refine ⟨.empty _, ?_, ?_, ?_⟩ <;> simp [emptyTenant, Tenant.empty]

lemma findsPinned_emptyTenant (handle url : String) :
    FindsPinned knownPackages emptyTenant handle url := by
  intro provider hprovider
  simp [emptyTenant, Tenant.empty, Tenant.visibleProviders] at hprovider

/-- The tenant after the server was added, and its removal lost its last request. -/
def removed : Tenant openHub :=
  ((removeMcpServer 1 0).exec Tenant.serve [.answered, .unreached]
    ((addMcpServer knownPackages (serverAt "https://a.example/mcp")).exec Tenant.serve []
      emptyTenant).2).2

def addedAgain : Tenant openHub :=
  ((addMcpServer knownPackages (serverAt "https://a.example/mcp")).exec Tenant.serve [] removed).2

/-- The server is added again on the provider row that was left. -/
theorem origin_pinned_again : OnPinned knownPackages addedAgain 0 "https://a.example/mcp" := by
  have hfinds : FindsPinned knownPackages removed "docs" "https://a.example/mcp" := by
    have hrows : removed.visibleProviders =
        [⟨0, "mcp-docs", "mcp-streamable-http", some "https://a.example"⟩] := by decide +kernel
    intro provider hprovider _
    rw [hrows, List.mem_singleton] at hprovider
    rw [hprovider]
    exact ⟨"https://a.example", rfl, rfl⟩
  have hlist : ((listMcpServers knownPackages).exec Tenant.serve [] addedAgain).1 =
      .ok [⟨2, 0, "docs", "Docs", "https://a.example/mcp", .none, []⟩] := by decide +kernel
  have hhistory : McpHistory knownPackages (FindsPinned knownPackages) emptyTenant addedAgain :=
    .add (serverAt "https://a.example/mcp") (.remove 1 0
      (.add (serverAt "https://a.example/mcp") .refl (findsPinned_emptyTenant _ _)
        (Client.runs_exec _ [] _)) (Client.runs_exec _ [.answered, .unreached] _)) hfinds
      (Client.runs_exec _ [] _)
  exact (origin_pinned knownPackages pins_emptyTenant hhistory
    (hlist ▸ Client.runs_exec _ [] _) List.mem_cons_self).2

/-- The tenant after the server was added at one URL, which failed, and then at another. -/
def movedServer : Tenant openHub :=
  ((addMcpServer knownPackages (serverAt "https://b.example/mcp")).exec Tenant.serve []
    ((addMcpServer knownPackages (serverAt "https://a.example/mcp")).exec Tenant.serve
      [.answered, .answered, .refused] emptyTenant).2).2

/-- **A provider row that a failed add has left is taken for another origin.** -/
theorem not_origin_pinned :
    McpHistory knownPackages (fun _ _ _ => True) emptyTenant movedServer ∧
    ((listMcpServers knownPackages).exec Tenant.serve [] movedServer).1 =
      .ok [⟨1, 0, "docs", "Docs", "https://b.example/mcp", .none, []⟩] ∧
    ¬ OnPinned knownPackages movedServer 0 "https://b.example/mcp" := by
  refine ⟨?_, by decide +kernel, fun h => ?_⟩
  · exact .add (serverAt "https://b.example/mcp") (.add (serverAt "https://a.example/mcp") .refl
      trivial (Client.runs_exec _ [.answered, .answered, .refused] _)) trivial
      (Client.runs_exec _ [] _)
  · obtain ⟨origin, horigin, hbase⟩ := h
      ⟨0, "mcp-docs", "mcp-streamable-http", some "https://a.example"⟩ (by decide +kernel) rfl
    have horigin : some "https://b.example" = some origin := horigin
    have hbase : some "https://a.example" = some origin := hbase
    exact absurd (horigin.trans hbase.symm) (by decide)

end Workbench.Web
