import Workbench.Web.McpEnsure

/-!
Removing the built-in MCP server of a workspace.

A call that sees to it that the server is there looks at the listing and at nothing else, and a
removal leaves nothing behind. So the next call after a removal adds the server again, unless an
add has put it back by then.

The calls of a workspace run side by side, request by request. The queue that one client keeps for
them is left out: it only takes runs away.
-/

namespace Workbench.Web.McpRemoval

open Workbench.Lib Workbench.Lib.Transition

inductive McpCall
  | ensure
  | add (input : AddMcpServerInput)
  | remove (credentialId providerId : Id)
  deriving DecidableEq, Repr

variable {S : Services} (E : McpPackages)

/-- The requests of a call; what it returns is not looked at. -/
def McpCall.body : McpCall → Call Unit
  | ensure => (runEnsureBuiltInMcpServers E).bind fun _ => pure ()
  | add input => (addMcpServer E input).bind fun _ => pure ()
  | remove credentialId providerId => removeMcpServer credentialId providerId

/-- A call on its way, with the provider rows that it was last told of. -/
structure RunningCall where
  call : McpCall
  body : Call Unit
  providers : List Provider

def recordsBuiltIn (row : Credential) : Bool :=
  row.metadata.mcp.any (·.handle = exaMcpServer.handle)

/-- A row of the built-in server is in the second workspace and not in the first. -/
def gains (t u : Tenant S) : Bool :=
  u.credentials.any fun row => recordsBuiltIn row && !t.credentials.contains row

/-- A workspace and its calls. Of the past it is kept how many calls there were when a removal took
the built-in server away for the first time, and which calls have stored it since. -/
structure McpRun (S : Services) where
  tenant : Tenant S
  calls : List RunningCall
  removed : Option ℕ
  storedBy : List ℕ

inductive McpEvent
  | start (call : McpCall)
  | request (n : ℕ) (d : Delivery)

def providersOf : (q : Request) → Reply q.Answers → List Provider → List Provider
  | .listProviders, .answered (.ok providers), _ => providers
  | _, _, providers => providers

def McpCall.isRemove : McpCall → Bool
  | remove .. => true
  | _ => false

namespace McpRun

def init (t : Tenant S) : McpRun S := ⟨t, [], none, []⟩

/-- What is kept of the past when a request of a call has turned the workspace into `u`. -/
def note (s : McpRun S) (n : ℕ) (call : McpCall) (u : Tenant S) : Option ℕ × List ℕ :=
  match s.removed with
  | some k => (some k, if gains s.tenant u then s.storedBy ++ [n] else s.storedBy)
  | none => (if call.isRemove && gains u s.tenant then some s.calls.length else none, s.storedBy)

def step (s : McpRun S) : McpEvent → Option (McpRun S)
  | .start call => some { s with calls := s.calls ++ [⟨call, call.body E, []⟩] }
  | .request n d =>
    match s.calls[n]? with
    | some ⟨call, .ask q next, providers⟩ =>
      let delivered := Client.deliver Tenant.serve s.tenant q d
      let noted := s.note n call delivered.2
      some { tenant := delivered.2
             calls := s.calls.set n ⟨call, next delivered.1, providersOf q delivered.1 providers⟩
             removed := noted.1
             storedBy := noted.2 }
    | _ => none

/-- Call `n` began after the built-in server was removed. -/
def After (s : McpRun S) (n : ℕ) : Prop := ∃ k, s.removed = some k ∧ k ≤ n

/-- A call that began after the removal and is told of the credentials finds the built-in server
among them. -/
def findsBuiltIn (s : McpRun S) : McpEvent → Bool
  | .start _ => true
  | .request n d =>
    match s.calls[n]? with
    | some ⟨.ensure, .ask .listCredentials _, providers⟩ =>
      s.removed.all (n < ·) || d ≠ .answered ||
        ((s.tenant.credentials.take defaultLimit).filterMap (storedServer E providers)).any
          (·.handle = exaMcpServer.handle)
    | _ => true

end McpRun

/-! ### Who can store it -/

section Stores

variable {E} {t : Tenant S} {call : McpCall} {handle : String}

/-- The request gives a credential the record of the built-in server. -/
def WritesBuiltIn : Request → Prop
  | .createCredential _ _ _ metadata => metadata.mcp.any (·.handle = exaMcpServer.handle)
  | .patchCredential _ metadata => metadata.mcp.any (·.handle = exaMcpServer.handle)
  | _ => False

lemma gains_self : gains t t = false := by
  refine List.any_eq_false.mpr fun row hrow => ?_
  simp [hrow]

lemma gains_serve {q : Request} (h : gains t (t.serve q).2) : WritesBuiltIn q := by
  obtain ⟨row, hrow, hgained⟩ := List.any_eq_true.mp h
  obtain ⟨hrecords, hnew⟩ : recordsBuiltIn row ∧ row ∉ t.credentials := by simpa using hgained
  cases q with
  | createCredential providerId name secret metadata =>
    simp only [Tenant.serve, Tenant.createCredential] at hrow
    split_ifs at hrow
    · exact absurd hrow hnew
    · exact absurd hrow hnew
    · rcases List.mem_cons.mp hrow with rfl | hold
      · exact hrecords
      · exact absurd hold hnew
  | patchCredential id metadata =>
    simp only [Tenant.serve, Tenant.patchCredential] at hrow
    split at hrow
    · exact absurd hrow hnew
    · obtain ⟨old, hold, rfl⟩ := List.mem_map.mp hrow
      split_ifs at hrecords hnew with hid
      · exact hrecords
      · exact absurd hold hnew
  | _ => exact absurd ((Tenant.credentials_subset rfl).2 row hrow) hnew

/-- An add of the server, or a call that sees to it that it is there. -/
def McpCall.MayStore : McpCall → Prop
  | ensure => True
  | add input => input.handle = exaMcpServer.handle
  | remove .. => False

lemma asks_request {P : Request → Prop} {q : Request} {otherwise : String} (h : P q) :
    (request q otherwise).Asks P := by
  refine ⟨h, fun reply => ?_⟩
  obtain ((_ | _ | _ | _) | _ | _) := reply <;> trivial

lemma asks_drop {P : Request → Prop} {c : Id} {cause : String} (h : P (.deleteCredential c)) :
    ((deleteCredential c).bind fun _ => (.fail cause : Call McpServer)).Asks P := by
  refine ⟨h, fun reply => ?_⟩
  obtain (_ | _ | _) := reply <;> trivial

lemma asks_recordCatalog {c providerId : Id} {name url : String} {auth : McpAuthKind}
    {existing : Metadata} :
    (recordCatalog c providerId handle name url auth existing).Asks
      fun q => WritesBuiltIn q → handle = exaMcpServer.handle := by
  refine Client.asks_andThen (asks_request False.elim) ?_
  rintro (cause | tools)
  · exact asks_drop False.elim
  · refine ⟨fun hwrites => by simpa [WritesBuiltIn] using hwrites, fun reply => ?_⟩
    obtain ((_ | _ | _ | _) | _ | _) := reply
    all_goals first | trivial | exact asks_drop False.elim

lemma asks_addMcpServer {input : AddMcpServerInput} :
    (addMcpServer E input).Asks
      fun q => WritesBuiltIn q → input.handle = exaMcpServer.handle := by
  refine Client.asks_bind ?_ fun providerId => Client.asks_bind ?_ fun credentialId =>
    asks_recordCatalog
  · refine Client.asks_bind (asks_request False.elim) fun providers => ?_
    split
    · trivial
    · split
      · trivial
      · exact Client.asks_bind (asks_request False.elim) fun _ => trivial
  · refine Client.asks_bind (asks_request ?_) fun _ => trivial
    exact fun hwrites => by simpa [WritesBuiltIn] using hwrites

lemma asks_body : (call.body E).Asks fun q => WritesBuiltIn q → call.MayStore := by
  cases call with
  | ensure => exact Client.asks_all fun _ _ => trivial
  | add input => exact Client.asks_bind asks_addMcpServer fun _ => trivial
  | remove credentialId providerId =>
    refine Client.asks_bind (asks_request False.elim) fun _ => ⟨False.elim, fun reply => ?_⟩
    obtain (_ | _ | _) := reply <;> trivial

end Stores

/-! ### What a later call does -/

section Reading

variable {t : Tenant S} {providers : List Provider} {d : Delivery}

/-- What is left of a call once it is told of the provider rows. -/
def afterProviders (providers : List Provider) : Call Unit :=
  let listed : Call (List McpServer) := do
    let credentials : List Credential ←
      request .listCredentials "listing the MCP credentials failed"
    pure ((credentials.filterMap (storedServer E providers)).insertionSort fun a b =>
      E.localeCompare a.name b.name ≠ .gt)
  let ensured : Call (List McpServer) := listed.bind fun existing =>
    if existing.any (·.handle = exaMcpServer.handle) then pure existing
    else do
      let added ← addMcpServer E ⟨exaMcpServer.handle, exaMcpServer.name, exaMcpServer.url, none⟩
      pure (existing ++ [added])
  ensured.bind fun _ => pure ()

lemma afterProviders_asks (providers : List Provider) :
    ∃ next, afterProviders E providers = .ask .listCredentials next :=
  ⟨_, rfl⟩

/-- The call is about to read, or it has ended. -/
def Reads (body : Call Unit) (providers : List Provider) : Prop :=
  body = McpCall.ensure.body E ∨ body = afterProviders E providers ∨ ∃ result, body = .done result

/-- What comes of a body when its next request fares so. -/
def advance (t : Tenant S) (d : Delivery) : Call Unit → List Provider →
    Call Unit × List Provider × Tenant S
  | .done result, providers => (.done result, providers, t)
  | .ask q next, providers =>
    let delivered := Client.deliver Tenant.serve t q d
    (next delivered.1, providersOf q delivered.1 providers, delivered.2)

lemma advance_ensure : (advance t d (McpCall.ensure.body E) providers).2.2 = t ∧
    Reads E (advance t d (McpCall.ensure.body E) providers).1
      (advance t d (McpCall.ensure.body E) providers).2.1 := by
  cases d with
  | answered => exact ⟨rfl, .inr (.inl rfl)⟩
  | refused | unreached | lost => exact ⟨rfl, .inr (.inr ⟨_, rfl⟩)⟩

lemma advance_afterProviders (h : d = .answered → ∃ server ∈
      (t.credentials.take defaultLimit).filterMap (storedServer E providers),
        server.handle = exaMcpServer.handle) :
    (advance t d (afterProviders E providers) providers).2.2 = t ∧
      Reads E (advance t d (afterProviders E providers) providers).1
        (advance t d (afterProviders E providers) providers).2.1 := by
  cases d with
  | answered =>
    obtain ⟨server, hserver, hhandle⟩ := h rfl
    refine ⟨rfl, .inr (.inr ⟨.ok (), ?_⟩)⟩
    have hany : (((t.credentials.take defaultLimit).filterMap
        (storedServer E providers)).insertionSort fun a b =>
          E.localeCompare a.name b.name ≠ .gt).any (·.handle = exaMcpServer.handle) = true :=
      List.any_eq_true.mpr ⟨server, (List.mem_insertionSort _).mpr hserver,
        decide_eq_true hhandle⟩
    change (if _ then pure _ else _ : Call (List McpServer)).bind _ = _
    rw [if_pos hany]
    rfl
  | refused | unreached | lost => exact ⟨rfl, .inr (.inr ⟨_, rfl⟩)⟩

end Reading

/-! ### Runs -/

/-- What holds along a run: who may store the server, what later calls do, and who has stored
it. -/
structure Kept (s : McpRun S) : Prop where
  asking : ∀ {n : ℕ} {r : RunningCall}, s.calls[n]? = some r →
    r.body.Asks fun q => WritesBuiltIn q → r.call.MayStore
  reading : ∀ {n : ℕ} {r : RunningCall}, s.calls[n]? = some r → r.call = .ensure → s.After n →
    Reads E r.body r.providers
  stored : ∀ n ∈ s.storedBy, ∃ r, s.calls[n]? = some r ∧ r.call.MayStore ∧
    (r.call = .ensure → ¬ s.After n)

section Runs

variable {E} {s t : McpRun S} {n : ℕ} {d : Delivery} {r : RunningCall}

lemma step_request (h : s.step E (.request n d) = some t) :
    ∃ call q next providers, s.calls[n]? = some ⟨call, .ask q next, providers⟩ ∧
      t.tenant = (advance s.tenant d (.ask q next) providers).2.2 ∧
      t.calls = s.calls.set n ⟨call, (advance s.tenant d (.ask q next) providers).1,
        (advance s.tenant d (.ask q next) providers).2.1⟩ ∧
      (t.removed, t.storedBy) = s.note n call t.tenant := by
  rw [McpRun.step] at h
  split at h
  · next call q next providers hcall =>
    obtain rfl := Option.some.inj h
    exact ⟨call, q, next, providers, hcall, rfl, rfl, rfl⟩
  · cases h

/-- What is noted: the removal stays as it is once it is there, and a call that is noted has brought
the server back after it. -/
lemma note_cases {call : McpCall} {u : Tenant S}
    (h : (t.removed, t.storedBy) = s.note n call u) :
    (s.removed.isSome ∧ t.removed = s.removed ∧ (t.storedBy = s.storedBy ∨
        gains s.tenant u ∧ t.storedBy = s.storedBy ++ [n])) ∨
      (s.removed = none ∧ t.storedBy = s.storedBy ∧
        (t.removed = none ∨ t.removed = some s.calls.length)) := by
  unfold McpRun.note at h
  cases hremoved : s.removed with
  | some k =>
    rw [hremoved] at h
    obtain ⟨hsame, hstored⟩ := Prod.mk.inj h
    refine .inl ⟨rfl, hsame, ?_⟩
    split_ifs at hstored with hgains
    · exact .inr ⟨hgains, hstored⟩
    · exact .inl hstored
  | none =>
    rw [hremoved] at h
    obtain ⟨hnew, hstored⟩ := Prod.mk.inj h
    refine .inr ⟨rfl, hstored, ?_⟩
    split_ifs at hnew
    · exact .inr hnew
    · exact .inl hnew

/-- A call that comes after the removal once the step is done came after it before, or is none of
the calls there were. -/
lemma after_of_note {call : McpCall} {u : Tenant S} {m : ℕ}
    (h : (t.removed, t.storedBy) = s.note n call u) (hafter : t.After m) :
    s.After m ∨ s.calls.length ≤ m := by
  obtain ⟨k, hk, hle⟩ := hafter
  rcases note_cases h with ⟨-, hsame, -⟩ | ⟨-, -, hnone | hnew⟩
  · exact .inl ⟨k, hsame ▸ hk, hle⟩
  · rw [hnone] at hk
    cases hk
  · obtain rfl := Option.some.inj (hnew.symm.trans hk)
    exact .inr hle

lemma calls_set {m : ℕ} {changed : RunningCall} {calls : List RunningCall}
    (h : (calls.set n changed)[m]? = some r) : (m = n ∧ r = changed) ∨
      (m ≠ n ∧ calls[m]? = some r) := by
  rw [List.getElem?_set] at h
  split_ifs at h with hnm hlt
  · exact .inl ⟨hnm.symm, (Option.some.inj h).symm⟩
  · exact .inr ⟨Ne.symm hnm, h⟩

/-- A request changes what is left of a call, not which call it is. -/
lemma call_of_set {m : ℕ} {call : McpCall} {body next : Call Unit} {old new : List Provider}
    {calls : List RunningCall} (hn : calls[n]? = some ⟨call, body, old⟩)
    (hm : calls[m]? = some r) :
    ∃ r', (calls.set n ⟨call, next, new⟩)[m]? = some r' ∧ r'.call = r.call := by
  by_cases hnm : n = m
  · subst hnm
    obtain rfl := Option.some.inj (hn.symm.trans hm)
    exact ⟨_, List.getElem?_set_self (List.getElem?_eq_some_iff.mp hn).1, rfl⟩
  · exact ⟨r, (List.getElem?_set_ne hnm).trans hm, rfl⟩

lemma Kept.start (h : Kept E s) (call : McpCall) :
    Kept E { s with calls := s.calls ++ [⟨call, call.body E, []⟩] } := by
  have hget {m : ℕ} {r : RunningCall} (hm : (s.calls ++ [⟨call, call.body E, []⟩])[m]? = some r) :
      s.calls[m]? = some r ∨ r = ⟨call, call.body E, []⟩ := by
    rcases Nat.lt_or_ge m s.calls.length with hlt | hge
    · exact .inl ((List.getElem?_append_left hlt).symm.trans hm)
    · rw [List.getElem?_append_right hge] at hm
      exact .inr (List.mem_singleton.mp (List.mem_of_getElem? hm))
  refine ⟨fun hm => ?_, fun hm hcall hafter => ?_, fun m hm => ?_⟩
  · rcases hget hm with hold | rfl
    · exact h.asking hold
    · exact asks_body
  · rcases hget hm with hold | rfl
    · exact h.reading hold hcall hafter
    · obtain rfl : call = .ensure := hcall
      exact .inl rfl
  · obtain ⟨r, hr, hmay, hbefore⟩ := h.stored m hm
    exact ⟨r, (List.getElem?_append_left (List.getElem?_eq_some_iff.mp hr).1).trans hr, hmay,
      hbefore⟩

/-- A later call that meets the guard reads and changes nothing. -/
lemma Kept.advance_reads (h : Kept E s) {q : Request} {next : Reply q.Answers → Call Unit}
    {providers : List Provider} (hn : s.calls[n]? = some ⟨.ensure, .ask q next, providers⟩)
    (hafter : s.After n) (hguard : s.findsBuiltIn E (.request n d)) :
    (advance s.tenant d (.ask q next) providers).2.2 = s.tenant ∧
      Reads E (advance s.tenant d (.ask q next) providers).1
        (advance s.tenant d (.ask q next) providers).2.1 := by
  rcases h.reading hn rfl hafter with hfirst | hsecond | ⟨result, hdone⟩
  · rw [show Client.ask q next = McpCall.ensure.body E from hfirst]
    exact advance_ensure E
  · have hbody : Client.ask q next = afterProviders E providers := hsecond
    rw [hbody]
    obtain ⟨asked, hasked⟩ := afterProviders_asks E providers
    rw [hbody, hasked] at hn
    refine advance_afterProviders E fun hanswered => ?_
    obtain ⟨k, hk, hle⟩ := hafter
    have hfinds : ((s.tenant.credentials.take defaultLimit).filterMap
        (storedServer E providers)).any (·.handle = exaMcpServer.handle) := by
      simp only [McpRun.findsBuiltIn, hn, hk, Option.all_some, hanswered, Bool.or_eq_true,
        decide_eq_true_eq, ne_eq, not_true_eq_false, or_false] at hguard
      exact hguard.resolve_left (Nat.not_lt.mpr hle)
    obtain ⟨server, hserver, hhandle⟩ := List.any_eq_true.mp hfinds
    exact ⟨server, hserver, of_decide_eq_true hhandle⟩
  · cases hdone

lemma gains_advance {q : Request} {next : Reply q.Answers → Call Unit}
    {providers : List Provider} {u : Tenant S}
    (h : gains u (advance u d (.ask q next) providers).2.2) : WritesBuiltIn q := by
  cases d with
  | answered | lost => exact gains_serve h
  | refused | unreached =>
    have hnone : gains u u = true := h
    rw [gains_self] at hnone
    cases hnone

/-- **A step under the guard keeps who has stored the server.** -/
lemma Kept.step (h : Kept E s) {e : McpEvent} (hguard : s.findsBuiltIn E e)
    (hstep : s.step E e = some t) : Kept E t := by
  cases e with
  | start call =>
    obtain rfl := Option.some.inj hstep
    exact h.start call
  | request n d =>
    obtain ⟨call, q, next, providers, hn, htenant, hcalls, hnote⟩ := step_request hstep
    have hasks := h.asking hn
    have hlt {m : ℕ} {r : RunningCall} (hm : s.calls[m]? = some r) : m < s.calls.length :=
      (List.getElem?_eq_some_iff.mp hm).1
    have hbefore {m : ℕ} {r : RunningCall} (hm : s.calls[m]? = some r) (hafter : t.After m) :
        s.After m := by
      rcases after_of_note hnote hafter with hold | hge
      · exact hold
      · exact absurd (hlt hm) (Nat.not_lt.mpr hge)
    -- the calls that were noted before stay noted
    have hnoted : ∀ m ∈ s.storedBy, ∃ r, t.calls[m]? = some r ∧ r.call.MayStore ∧
        (r.call = .ensure → ¬ t.After m) := by
      intro m hm
      obtain ⟨r, hr, hmay, hearly⟩ := h.stored m hm
      rw [hcalls]
      obtain ⟨r', hr', hcall⟩ := call_of_set hn hr
      exact ⟨r', hr', hcall ▸ hmay, fun hensure hafter => hearly (hcall ▸ hensure)
        (hbefore hr hafter)⟩
    refine ⟨fun hm => ?_, fun hm hcall hafter => ?_, ?_⟩
    · rw [hcalls] at hm
      rcases calls_set hm with ⟨-, rfl⟩ | ⟨-, hold⟩
      · exact hasks.2 (Client.deliver Tenant.serve s.tenant q d).1
      · exact h.asking hold
    · rw [hcalls] at hm
      rcases calls_set hm with ⟨rfl, rfl⟩ | ⟨-, hold⟩
      · obtain rfl : call = .ensure := hcall
        exact (h.advance_reads hn (hbefore hn hafter) hguard).2
      · exact h.reading hold hcall (hbefore hold hafter)
    · rcases note_cases hnote with ⟨-, -, hsame | ⟨hgains, hnew⟩⟩ | ⟨-, hsame, -⟩
      · rwa [hsame]
      · intro m hm
        rw [hnew] at hm
        rcases List.mem_append.mp hm with hold | hlast
        · exact hnoted m hold
        obtain rfl := List.mem_singleton.mp hlast
        rw [htenant] at hgains
        rw [hcalls]
        refine ⟨_, List.getElem?_set_self (hlt hn), hasks.1 (gains_advance hgains),
          fun hensure hafter => ?_⟩
        obtain rfl : call = .ensure := hensure
        rw [(h.advance_reads hn (hbefore hn hafter) hguard).1, gains_self] at hgains
        cases hgains
      · rwa [hsame]

lemma Kept.init (t : Tenant S) : Kept E (McpRun.init t) := by
  refine ⟨?_, ?_, ?_⟩ <;> simp [McpRun.init]

end Runs

/-- **A removal is not undone** where every later call that sees to it that the built-in server is
there finds it: whatever stores it after the removal is an add, or has begun before. -/
theorem removal_respected {S : Services} (E : McpPackages) (t : Tenant S) {s : McpRun S}
    (h : Reach (McpRun.step E) (fun s e => s.findsBuiltIn E e) (McpRun.init t) s) {k n : ℕ}
    (hremoved : s.removed = some k) (hstored : n ∈ s.storedBy) :
    ∃ r, s.calls[n]? = some r ∧
      ((∃ input, r.call = .add input ∧ input.handle = exaMcpServer.handle) ∨
        r.call = .ensure ∧ n < k) := by
  have hkept : Kept E s :=
    h.invariant (.init t) fun _ _ _ hs hguard hstep => hs.step hguard hstep
  obtain ⟨r, hr, hmay, hearly⟩ := hkept.stored n hstored
  refine ⟨r, hr, ?_⟩
  cases hcall : r.call with
  | ensure => exact .inr ⟨rfl, Nat.not_le.mp fun hle => hearly hcall ⟨k, hremoved, hle⟩⟩
  | add input =>
    rw [hcall] at hmay
    exact .inl ⟨input, rfl, hmay⟩
  | remove credentialId providerId =>
    rw [hcall] at hmay
    exact hmay.elim

/-! ### The next start -/

/-- Packages that know the built-in server. -/
def exaPackages : McpPackages :=
  { knownPackages with
    origin := fun url => if url = exaMcpServer.url then some "https://mcp.exa.ai" else none }

/-- A call whose requests are all answered, as the `n`th. -/
def answered (n requests : ℕ) (call : McpCall) : List McpEvent :=
  .start call :: List.replicate requests (.request n .answered)

/-- The server is stored, removed and added again; the next start finds it. -/
def addedBack : List McpEvent :=
  answered 0 7 .ensure ++ answered 1 2 (.remove 1 0) ++
    answered 2 5 (.add ⟨exaMcpServer.handle, exaMcpServer.name, exaMcpServer.url, none⟩) ++
    answered 3 2 .ensure

theorem removal_respected_added : ∃ s, run (McpRun.step exaPackages) (McpRun.init emptyTenant)
    addedBack = some s ∧ ∃ r, s.calls[2]? = some r ∧
      ((∃ input, r.call = .add input ∧ input.handle = exaMcpServer.handle) ∨
        r.call = .ensure ∧ 2 < 2) := by
  have hend : ∃ s, run (fun s e => if s.findsBuiltIn exaPackages e then s.step exaPackages e
      else none) (McpRun.init emptyTenant) addedBack = some s ∧
      run (McpRun.step exaPackages) (McpRun.init emptyTenant) addedBack = some s ∧
      s.removed = some 2 ∧ s.storedBy = [2] := ⟨_, rfl, rfl, rfl, rfl⟩
  obtain ⟨s, hchecked, hrun, hremoved, hstored⟩ := hend
  exact ⟨s, hrun, removal_respected exaPackages emptyTenant
    (reach_of_checked (fun _ _ h => h) hchecked) hremoved (hstored ▸ List.mem_singleton_self 2)⟩

/-- **The next start stores the server again.** -/
theorem removal_undone : ∃ s, run (McpRun.step exaPackages) (McpRun.init emptyTenant)
    (answered 0 7 .ensure ++ answered 1 2 (.remove 1 0) ++ answered 2 7 .ensure) = some s ∧
      s.removed = some 2 ∧ s.storedBy = [2] ∧ (s.calls[2]?.map (·.call)) = some .ensure :=
  ⟨_, rfl, rfl, rfl, rfl⟩

end Workbench.Web.McpRemoval
