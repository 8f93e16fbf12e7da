import Workbench.Lib.Percent

/-!
The workflow principal of an agent.

The tenant's principals come in pages, and each page is gone through as it comes. The first
principal that matches is taken, whether it is the anchor run's or only bears the agent's address.
So a run principal under the address hides an anchor that is listed behind it.
-/

namespace Workbench.Web.AgentRoles

open List Workbench.Lib

structure Principal where
  id : String
  kind : String
  refId : String
  displayName : String
  status : String
  deriving DecidableEq, Repr

structure PrincipalsPage where
  data : List Principal
  nextCursor : Option String

structure AgentPrincipalRef where
  deploymentId : String
  address : Option String

/-- What the hub answers: the status, and the body if it has the shape of a page. -/
structure Response where
  status : ℕ
  page : Option PrincipalsPage

inductive Failure
  | unauthenticated
  /-- `AgentRolesError` -/
  | agentRoles (message : String)
  deriving DecidableEq, Repr

/-- A request by its path. It can fail for a reason that has a text or none. -/
abbrev Fetch := String → Except (Option String) Response

def tenantPath (tenantId suffix : String) : String :=
  "/api/tenants/" ++ Percent.encodeURIComponent tenantId ++ suffix

def readPage (response : Response) (what : String) : Except Failure PrincipalsPage :=
  if response.status = 401 then .error .unauthenticated
  else if ¬ (200 ≤ response.status ∧ response.status ≤ 299) then
    .error (.agentRoles (what ++ " failed."))
  else
    match response.page with
    | none => .error (.agentRoles (what ++ " came back an unexpected shape."))
    | some page => .ok page

def fetchPage (fetchImpl : Fetch) (path what : String) : Except Failure PrincipalsPage :=
  match fetchImpl path with
  | .error cause => .error (.agentRoles (cause.getD (what ++ " failed.")))
  | .ok response => readPage response what

section

variable (fetchImpl : Fetch) (tenantId : String) (ref : AgentPrincipalRef)

def principalsPath (cursor : Option String) : String :=
  let base := tenantPath tenantId "/principals" ++ "?kind=workflow&limit=100"
  match cursor with
  | none => base
  | some cursor => base ++ "&cursor=" ++ Percent.encodeURIComponent cursor

def fetchPrincipals (cursor : Option String) : Except Failure PrincipalsPage :=
  fetchPage fetchImpl (principalsPath tenantId cursor) "Listing this workbench's people"

def expectedName : Option String := ref.address.map fun address => "Workflow (" ++ address ++ ")"

/-- The body of the loop over a page: the id that is returned, if one is. -/
def pick (principal : Principal) : Option String :=
  if principal.status = "removed" then none
  else if principal.refId = ref.deploymentId then some principal.id
  else if expectedName ref = some principal.displayName then some principal.id
  else none

/-- The loop over the pages, with as many rounds as there is fuel for. -/
def resolveFrom : ℕ → Option String → Option (Except Failure (Option String))
  | 0, _ => none
  | fuel + 1, cursor =>
    match fetchPrincipals fetchImpl tenantId cursor with
    | .error failure => some (.error failure)
    | .ok page =>
      match page.data.findSome? (pick ref) with
      | some id => some (.ok (some id))
      | none =>
        match page.nextCursor with
        | none => some (.ok none)
        | some cursor => resolveFrom fuel (some cursor)

/-- `resolveAgentPrincipalId` ends with this result. -/
def Resolves (result : Except Failure (Option String)) : Prop :=
  ∃ fuel, resolveFrom fetchImpl tenantId ref fuel none = some result

/-- From a cursor on, the hub lists these pages. -/
inductive Lists : Option String → List (List Principal) → Prop
  | last {cursor data} (h : fetchPrincipals fetchImpl tenantId cursor = .ok ⟨data, none⟩) :
    Lists cursor [data]
  | more {cursor data next pages}
    (h : fetchPrincipals fetchImpl tenantId cursor = .ok ⟨data, some next⟩)
    (rest : Lists (some next) pages) : Lists cursor (data :: pages)

end

/-! ### What is looked for -/

def IsAnchor (ref : AgentPrincipalRef) (principal : Principal) : Prop :=
  principal.status ≠ "removed" ∧ principal.refId = ref.deploymentId

/-- A live principal of the agent's address that is not the anchor run's. -/
def IsUnderAddress (ref : AgentPrincipalRef) (principal : Principal) : Prop :=
  principal.status ≠ "removed" ∧ principal.refId ≠ ref.deploymentId ∧
    expectedName ref = some principal.displayName

/-- The anchor run's principal, else one under the agent's address, else none. -/
structure FindsAnchor (listing : List Principal) (ref : AgentPrincipalRef)
    (result : Option String) : Prop where
  anchor : (∃ p ∈ listing, IsAnchor ref p) → ∃ p ∈ listing, IsAnchor ref p ∧ result = some p.id
  address : (¬ ∃ p ∈ listing, IsAnchor ref p) → (∃ p ∈ listing, IsUnderAddress ref p) →
    ∃ p ∈ listing, IsUnderAddress ref p ∧ result = some p.id
  null : (¬ ∃ p ∈ listing, IsAnchor ref p) → (¬ ∃ p ∈ listing, IsUnderAddress ref p) →
    result = none
  live : ∀ id, result = some id → ∃ p ∈ listing, p.status ≠ "removed" ∧ p.id = id

/-- No principal that only bears the address stands before the anchors, unless an anchor has the
same id. -/
def AnchorFirst (listing : List Principal) (ref : AgentPrincipalRef) : Prop :=
  ∀ before p after, listing = before ++ p :: after →
    (∀ q ∈ before, ¬ IsAnchor ref q ∧ ¬ IsUnderAddress ref q) → IsUnderAddress ref p →
    (∃ q ∈ after, IsAnchor ref q) → ∃ q ∈ after, IsAnchor ref q ∧ q.id = p.id

variable {fetchImpl : Fetch} {tenantId : String} {ref : AgentPrincipalRef} {p : Principal}
  {listing : List Principal} {pages : List (List Principal)} {cursor result : Option String}

lemma pick_of_isAnchor (h : IsAnchor ref p) : pick ref p = some p.id := by
  rw [pick, if_neg h.1, if_pos h.2]

lemma pick_of_isUnderAddress (h : IsUnderAddress ref p) : pick ref p = some p.id := by
  rw [pick, if_neg h.1, if_neg h.2.1, if_pos h.2.2]

lemma pick_eq_none : pick ref p = none ↔ ¬ IsAnchor ref p ∧ ¬ IsUnderAddress ref p := by
  by_cases hanchor : IsAnchor ref p
  · simp [pick_of_isAnchor hanchor, hanchor]
  · by_cases haddress : IsUnderAddress ref p
    · simp [pick_of_isUnderAddress haddress, haddress]
    · simp only [hanchor, haddress, not_false_eq_true, and_self, iff_true]
      simp only [IsAnchor, IsUnderAddress, not_and] at hanchor haddress
      rw [pick]
      split_ifs with hremoved hdeployment hname
      · rfl
      · exact absurd hdeployment (hanchor hremoved)
      · exact absurd hname (haddress hremoved hdeployment)
      · rfl

/-- **The pages are gone through like one list.** -/
theorem resolveFrom_of_lists (h : Lists fetchImpl tenantId cursor pages) {fuel : ℕ}
    (hfuel : pages.length ≤ fuel) : resolveFrom fetchImpl tenantId ref fuel cursor =
      some (.ok (pages.flatten.findSome? (pick ref))) := by
  induction h generalizing fuel with
  | @last cursor data h =>
    obtain ⟨fuel, rfl⟩ := Nat.exists_eq_add_of_le' hfuel
    rw [List.length_singleton, resolveFrom, h, List.flatten_singleton]
    simp only
    cases data.findSome? (pick ref) <;> rfl
  | @more cursor data next pages h rest ih =>
    obtain ⟨fuel, rfl⟩ := Nat.exists_eq_add_of_le' (Nat.le_of_add_left_le hfuel)
    rw [List.length_cons] at hfuel
    rw [resolveFrom, h, List.flatten_cons, List.findSome?_append]
    simp only
    cases data.findSome? (pick ref) with
    | some id => rfl
    | none => exact ih (by omega)

lemma resolveFrom_mono {fuel more : ℕ} {outcome : Except Failure (Option String)}
    (h : resolveFrom fetchImpl tenantId ref fuel cursor = some outcome) (hle : fuel ≤ more) :
    resolveFrom fetchImpl tenantId ref more cursor = some outcome := by
  induction fuel generalizing cursor more with
  | zero => cases h
  | succ fuel ih =>
    obtain ⟨more, rfl⟩ := Nat.exists_eq_add_of_le' (Nat.le_of_add_left_le hle)
    rw [resolveFrom] at h ⊢
    split
    · next failure hfailure => simpa only [hfailure] using h
    · next page hpage =>
      simp only [hpage] at h
      split
      · next id hid => simpa only [hid] using h
      · next hid =>
        simp only [hid] at h
        split
        · next hlast => simpa only [hlast] using h
        · next next hnext =>
          simp only [hnext] at h
          exact ih h (by omega)

/-- A search that ends ends with the first principal that matches. -/
lemma resolves_iff (h : Lists fetchImpl tenantId none pages)
    {outcome : Except Failure (Option String)} : Resolves fetchImpl tenantId ref outcome ↔
      outcome = .ok (pages.flatten.findSome? (pick ref)) := by
  constructor
  · rintro ⟨fuel, hfuel⟩
    have hmore := resolveFrom_mono hfuel (Nat.le_add_right fuel pages.length)
    rw [resolveFrom_of_lists h (Nat.le_add_left _ _)] at hmore
    exact (Option.some.inj hmore).symm
  · rintro rfl
    exact ⟨_, resolveFrom_of_lists h le_rfl⟩

lemma exists_of_findSome?_pick {id : String} (h : listing.findSome? (pick ref) = some id) :
    ∃ before p after, listing = before ++ p :: after ∧
      (∀ q ∈ before, ¬ IsAnchor ref q ∧ ¬ IsUnderAddress ref q) ∧
      (IsAnchor ref p ∨ IsUnderAddress ref p) ∧ p.id = id := by
  obtain ⟨before, p, after, hlisting, hpick, hbefore⟩ := List.findSome?_eq_some_iff.mp h
  refine ⟨before, p, after, hlisting, fun q hq => pick_eq_none.1 (hbefore q hq), ?_⟩
  by_cases hanchor : IsAnchor ref p
  · rw [pick_of_isAnchor hanchor] at hpick
    exact ⟨.inl hanchor, Option.some.inj hpick⟩
  · by_cases haddress : IsUnderAddress ref p
    · rw [pick_of_isUnderAddress haddress] at hpick
      exact ⟨.inr haddress, Option.some.inj hpick⟩
    · rw [pick_eq_none.2 ⟨hanchor, haddress⟩] at hpick
      cases hpick

lemma findSome?_pick_ne_none (hp : p ∈ listing) (h : IsAnchor ref p ∨ IsUnderAddress ref p) :
    ∃ id, listing.findSome? (pick ref) = some id := by
  cases hfound : listing.findSome? (pick ref) with
  | some id => exact ⟨id, rfl⟩
  | none =>
    obtain ⟨hanchor, haddress⟩ := pick_eq_none.1 (List.findSome?_eq_none_iff.mp hfound p hp)
    rcases h with h | h
    · exact absurd h hanchor
    · exact absurd h haddress

lemma findsAnchor_iff :
    FindsAnchor listing ref (listing.findSome? (pick ref)) ↔ AnchorFirst listing ref := by
  constructor
  · rintro hfinds before p after rfl hbefore hp ⟨anchor, hmem, hanchor⟩
    have hfirst : (before ++ p :: after).findSome? (pick ref) = some p.id :=
      List.findSome?_eq_some_iff.mpr ⟨before, p, after, rfl, pick_of_isUnderAddress hp,
        fun q hq => pick_eq_none.2 (hbefore q hq)⟩
    obtain ⟨q, hq, hqanchor, hid⟩ := hfinds.anchor ⟨anchor, by simp [hmem], hanchor⟩
    rw [hfirst] at hid
    refine ⟨q, ?_, hqanchor, (Option.some.inj hid).symm⟩
    rcases List.mem_append.mp hq with hq | hq
    · exact absurd hqanchor (hbefore q hq).1
    · rcases List.mem_cons.mp hq with rfl | hq
      · exact absurd hqanchor.2 hp.2.1
      · exact hq
  · intro hfirst
    refine ⟨?_, ?_, ?_, ?_⟩
    · rintro ⟨anchor, hmem, hanchor⟩
      obtain ⟨id, hid⟩ := findSome?_pick_ne_none hmem (.inl hanchor)
      obtain ⟨before, p, after, rfl, hbefore, hp, rfl⟩ := exists_of_findSome?_pick hid
      rw [hid]
      rcases hp with hp | hp
      · exact ⟨p, by simp, hp, rfl⟩
      · have hafter : anchor ∈ after := by
          rcases List.mem_append.mp hmem with hmem | hmem
          · exact absurd hanchor (hbefore anchor hmem).1
          · rcases List.mem_cons.mp hmem with rfl | hmem
            · exact absurd hanchor.2 hp.2.1
            · exact hmem
        obtain ⟨q, hq, hqanchor, hqid⟩ :=
          hfirst before p after rfl hbefore hp ⟨anchor, hafter, hanchor⟩
        exact ⟨q, by simp [hq], hqanchor, congrArg some hqid.symm⟩
    · rintro hnone ⟨other, hmem, hother⟩
      obtain ⟨id, hid⟩ := findSome?_pick_ne_none hmem (.inr hother)
      obtain ⟨before, p, after, rfl, -, hp, rfl⟩ := exists_of_findSome?_pick hid
      exact ⟨p, by simp, hp.resolve_left fun hanchor => hnone ⟨p, by simp, hanchor⟩, hid⟩
    · intro hanchor haddress
      refine List.findSome?_eq_none_iff.mpr fun p hp => pick_eq_none.2 ⟨fun h => ?_, fun h => ?_⟩
      · exact hanchor ⟨p, hp, h⟩
      · exact haddress ⟨p, hp, h⟩
    · intro id hid
      obtain ⟨before, p, after, rfl, -, hp, rfl⟩ := exists_of_findSome?_pick hid
      exact ⟨p, by simp, hp.elim (·.1) (·.1), rfl⟩

/-- **The anchor's principal is found**, in every order and page split, exactly when no other
principal of the agent's address is listed before it. -/
theorem resolveAgentPrincipalId_iff (h : Lists fetchImpl tenantId none pages) :
    (∃ result, Resolves fetchImpl tenantId ref (.ok result) ∧
      FindsAnchor pages.flatten ref result) ↔ AnchorFirst pages.flatten ref := by
  rw [← findsAnchor_iff]
  constructor
  · rintro ⟨result, hresult, hfinds⟩
    obtain rfl := Except.ok.inj ((resolves_iff h).mp hresult)
    exact hfinds
  · exact fun hfinds => ⟨_, (resolves_iff h).mpr rfl, hfinds⟩

/-! ### Two pages -/

def agentRef : AgentPrincipalRef := ⟨"dep_2", some "scout@acme.test"⟩

/-- A principal of the agent's address. -/
def runPrincipal (id deployment status : String) : Principal :=
  ⟨id, "workflow", deployment, "Workflow (scout@acme.test)", status⟩

/-- A hub that lists two pages. -/
def twoPages (first second : List Principal) : Fetch := fun path =>
  if path = principalsPath "acme" none then .ok ⟨200, some ⟨first, some "next"⟩⟩
  else .ok ⟨200, some ⟨second, none⟩⟩

lemma lists_twoPages (first second : List Principal) :
    Lists (twoPages first second) "acme" none [first, second] :=
  .more rfl (.last rfl)

theorem resolveAgentPrincipalId_iff_removed :
    (∃ result, Resolves (twoPages [runPrincipal "prn_1" "dep_1" "removed"]
        [runPrincipal "prn_2" "dep_2" "active"]) "acme" agentRef (.ok result) ∧
      FindsAnchor [runPrincipal "prn_1" "dep_1" "removed", runPrincipal "prn_2" "dep_2" "active"]
        agentRef result) ↔
    AnchorFirst [runPrincipal "prn_1" "dep_1" "removed", runPrincipal "prn_2" "dep_2" "active"]
      agentRef :=
  resolveAgentPrincipalId_iff (lists_twoPages _ _)

/-- **An earlier run of the agent hides its anchor.** -/
theorem earlier_run_hides_anchor : ∃ pages, Lists (twoPages
      [runPrincipal "prn_1" "dep_1" "active"] [runPrincipal "prn_2" "dep_2" "active"]) "acme" none
      pages ∧
    ¬ ∃ result, Resolves (twoPages [runPrincipal "prn_1" "dep_1" "active"]
        [runPrincipal "prn_2" "dep_2" "active"]) "acme" agentRef (.ok result) ∧
      FindsAnchor pages.flatten agentRef result := by
  refine ⟨_, lists_twoPages _ _, ?_⟩
  rintro ⟨result, hresult, hfinds⟩
  obtain rfl := Except.ok.inj ((resolves_iff (lists_twoPages _ _)).mp hresult)
  obtain ⟨p, hp, hanchor, hid⟩ := hfinds.anchor ⟨runPrincipal "prn_2" "dep_2" "active", by simp,
    by decide, rfl⟩
  have hfirst : p.id = "prn_1" := (Option.some.inj hid).symm
  have hsecond : p.refId = "dep_2" := hanchor.2
  simp only [List.flatten_cons, List.flatten_nil, List.append_nil, List.singleton_append,
    List.mem_cons, List.not_mem_nil, or_false] at hp
  rcases hp with rfl | rfl
  · exact absurd hsecond (by decide)
  · exact absurd hfirst (by decide)

end Workbench.Web.AgentRoles
