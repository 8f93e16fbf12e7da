import Workbench.Lib.Transition
import Workbench.Web.McpServers

/-!
The built-in MCP server of a workspace: any number of calls see to it that it is there.

The calls for one workspace run one after the other: a shared map holds the flight that was
queued last, and the next one waits for it to settle, however it settles. Other clients go on
meanwhile.
-/

namespace Workbench.Web

open Workbench.Lib

structure McpCatalogEntry where
  handle : String
  name : String
  url : String
  auth : McpAuthKind
  deriving DecidableEq, Repr

def exaMcpServer : McpCatalogEntry := ⟨"exa", "Exa", "https://mcp.exa.ai/mcp", .none⟩

def runEnsureBuiltInMcpServers (E : McpPackages) : Call (List McpServer) := do
  let existing ← listMcpServers E
  if existing.any (·.handle = exaMcpServer.handle) then pure existing
  else do
    let added ← addMcpServer E ⟨exaMcpServer.handle, exaMcpServer.name, exaMcpServer.url, none⟩
    pure (existing ++ [added])

/-! ### The queue -/

variable {S : Services}

inductive Stage
  /-- `previous.then(run, run)` -/
  | waiting (previous : ℕ)
  | running (body : Call (List McpServer))
  | settled (result : Except String (List McpServer))

/-- The promise of a call. -/
structure Flight where
  workspace : String
  stage : Stage

/-- The client and the hub: calls that still resolve their workspace, the flights in the order of
their making, and the shared map. -/
structure EnsureState (S : Services) where
  tenants : String → Tenant S
  resolving : List String
  flights : List Flight
  ensureQueue : String → Option ℕ

inductive EnsureEvent
  /-- `ensureBuiltInMcpServers` is called for a tenant -/
  | call (tenantId : String)
  /-- the workspace of a call is resolved, and its flight is queued -/
  | resolved (i : ℕ)
  | unresolved (i : ℕ)
  /-- a request of a running body -/
  | request (flight : ℕ) (d : Delivery)
  /-- a body has ended -/
  | settle (flight : ℕ)
  /-- a body starts that has waited -/
  | start (flight : ℕ)
  /-- the callback that removes a settled flight from the map -/
  | forget (flight : ℕ)
  /-- a request of another client -/
  | other (workspace : String) (q : Request)

/-- A flight is at another stage. -/
def EnsureState.set (s : EnsureState S) (n : ℕ) (flight : Flight) (stage : Stage) :
    EnsureState S :=
  { s with flights := s.flights.set n { flight with stage := stage } }

def EnsureState.setTenant (s : EnsureState S) (workspace : String) (t : Tenant S) :
    EnsureState S :=
  { s with tenants := Function.update s.tenants workspace t }

/-- `parentId` gives the parents of tenants. -/
def EnsureState.step (E : McpPackages) (parentId : String → Option String) (s : EnsureState S) :
    EnsureEvent → Option (EnsureState S)
  | .call tenantId => some { s with resolving := s.resolving ++ [tenantId] }
  | .resolved i =>
    match s.resolving[i]? with
    | none => none
    | some tenantId =>
      let workspace := (parentId tenantId).getD tenantId
      let stage : Stage := match s.ensureQueue workspace with
        | none => .running (runEnsureBuiltInMcpServers E)
        | some previous => .waiting previous
      some { s with
        resolving := s.resolving.eraseIdx i
        flights := s.flights ++ [⟨workspace, stage⟩]
        ensureQueue := Function.update s.ensureQueue workspace (some s.flights.length) }
  | .unresolved i =>
    if i < s.resolving.length then some { s with resolving := s.resolving.eraseIdx i } else none
  | .request n d =>
    match s.flights[n]? with
    | some ⟨workspace, .running (.ask q next)⟩ =>
      let delivered := Client.deliver Tenant.serve (s.tenants workspace) q d
      some ((s.set n ⟨workspace, .running (.ask q next)⟩ (.running (next delivered.1))).setTenant
        workspace delivered.2)
    | _ => none
  | .settle n =>
    match s.flights[n]? with
    | some ⟨workspace, .running (.done result)⟩ =>
      some (s.set n ⟨workspace, .running (.done result)⟩ (.settled result))
    | _ => none
  | .start n =>
    match s.flights[n]? with
    | some ⟨workspace, .waiting previous⟩ =>
      match s.flights[previous]? with
      | some ⟨_, .settled _⟩ => some (s.set n ⟨workspace, .waiting previous⟩
          (.running (runEnsureBuiltInMcpServers E)))
      | _ => none
    | _ => none
  | .forget n =>
    match s.flights[n]? with
    | some ⟨workspace, .settled _⟩ =>
      if s.ensureQueue workspace = some n then
        some { s with ensureQueue := Function.update s.ensureQueue workspace none }
      else some s
    | _ => none
  | .other workspace q => some (s.setTenant workspace (Tenant.serve q (s.tenants workspace)).2)

/-! ### One after the other -/

/-- The body has started. -/
def Stage.begun : Stage → Prop
  | .waiting _ => False
  | _ => True

/-- The flight has settled. -/
def Stage.over : Stage → Prop
  | .settled _ => True
  | _ => False

/-- The flights of a workspace settle in their order, each waits for the one before it, and the
map holds the last one until all have settled. -/
structure Queued (s : EnsureState S) : Prop where
  ordered : ∀ {i j : ℕ} {a b : Flight}, i < j → s.flights[i]? = some a → s.flights[j]? = some b →
    a.workspace = b.workspace → b.stage.begun → a.stage.over
  behind : ∀ {j k : ℕ} {b : Flight}, s.flights[j]? = some b → b.stage = .waiting k →
    k < j ∧ (∃ a, s.flights[k]? = some a ∧ a.workspace = b.workspace) ∧
      ∀ (i : ℕ) (c : Flight), k < i → i < j → s.flights[i]? = some c →
        c.workspace ≠ b.workspace
  last : ∀ {w : String} {k : ℕ}, s.ensureQueue w = some k →
    (∃ a, s.flights[k]? = some a ∧ a.workspace = w) ∧
      ∀ (i : ℕ) (c : Flight), k < i → s.flights[i]? = some c → c.workspace ≠ w
  idle : ∀ {w : String}, s.ensureQueue w = none → ∀ (i : ℕ) (c : Flight),
    s.flights[i]? = some c → c.workspace = w → c.stage.over

section Queue

variable {s t : EnsureState S} {n : ℕ} {flight : Flight} {stage : Stage}

lemma flights_set {i : ℕ} {c : Flight} (h : (s.set n flight stage).flights[i]? = some c) :
    (i = n ∧ c = { flight with stage := stage }) ∨ (i ≠ n ∧ s.flights[i]? = some c) := by
  rw [EnsureState.set, List.getElem?_set] at h
  split_ifs at h with hin hlt
  · exact .inl ⟨hin.symm, (Option.some.inj h).symm⟩
  · exact .inr ⟨Ne.symm hin, h⟩

lemma flights_set_of {i : ℕ} {c : Flight} (stage : Stage) (hn : s.flights[n]? = some flight)
    (h : s.flights[i]? = some c) :
    ∃ c', (s.set n flight stage).flights[i]? = some c' ∧ c'.workspace = c.workspace := by
  rw [EnsureState.set, List.getElem?_set]
  by_cases hin : n = i
  · subst hin
    have hlt : n < s.flights.length := (List.getElem?_eq_some_iff.mp hn).1
    rw [if_pos rfl, if_pos hlt]
    obtain rfl := Option.some.inj (hn.symm.trans h)
    exact ⟨_, rfl, rfl⟩
  · rw [if_neg hin]
    exact ⟨c, h, rfl⟩

/-- A flight goes on, behind flights that have settled. -/
lemma Queued.set (h : Queued s) (hn : s.flights[n]? = some flight) (hbegun : stage.begun)
    (hover : flight.stage.over → stage.over)
    (hbefore : ∀ i a, i < n → s.flights[i]? = some a → a.workspace = flight.workspace →
      a.stage.over) : Queued (s.set n flight stage) where
  ordered {i j a b} hij ha hb hw hb' := by
    rcases flights_set ha with ⟨rfl, rfl⟩ | ⟨-, hold⟩ <;>
      rcases flights_set hb with ⟨rfl, rfl⟩ | ⟨-, hold'⟩
    · exact absurd hij (Nat.lt_irrefl _)
    · exact hover (h.ordered hij hn hold' hw hb')
    · exact hbefore i a hij hold hw
    · exact h.ordered hij hold hold' hw hb'
  behind {j k b} hb hk := by
    rcases flights_set hb with ⟨rfl, rfl⟩ | ⟨-, hb⟩
    · rw [show stage = .waiting k from hk] at hbegun
      exact hbegun.elim
    · obtain ⟨hlt, ⟨a, ha, hw⟩, hnone⟩ := h.behind hb hk
      obtain ⟨a', ha', hw'⟩ := flights_set_of stage hn ha
      refine ⟨hlt, ⟨a', ha', hw'.trans hw⟩, fun i c hki hij hc => ?_⟩
      rcases flights_set hc with ⟨rfl, rfl⟩ | ⟨-, hc⟩
      · exact hnone _ flight hki hij hn
      · exact hnone i c hki hij hc
  last {w k} hk := by
    obtain ⟨⟨a, ha, hw⟩, hnone⟩ := h.last hk
    obtain ⟨a', ha', hw'⟩ := flights_set_of stage hn ha
    refine ⟨⟨a', ha', hw'.trans hw⟩, fun i c hki hc => ?_⟩
    rcases flights_set hc with ⟨rfl, rfl⟩ | ⟨-, hc⟩
    · exact hnone _ flight hki hn
    · exact hnone i c hki hc
  idle {w} hw i c hc hcw := by
    rcases flights_set hc with ⟨rfl, rfl⟩ | ⟨-, hc⟩
    · exact hover (h.idle hw _ flight hn hcw)
    · exact h.idle hw i c hc hcw

/-- A new flight, that runs if none is in the map and else waits for that one. -/
lemma Queued.append (h : Queued s) (workspace : String) (body : Call (List McpServer))
    (resolving : List String) (hstage : stage = match s.ensureQueue workspace with
      | none => .running body
      | some previous => .waiting previous) :
    Queued { s with
      resolving := resolving
      flights := s.flights ++ [⟨workspace, stage⟩]
      ensureQueue := Function.update s.ensureQueue workspace (some s.flights.length) } := by
  have hget {i : ℕ} {c : Flight} (hc : (s.flights ++ [⟨workspace, stage⟩])[i]? = some c) :
      (i = s.flights.length ∧ c = ⟨workspace, stage⟩) ∨
        (i < s.flights.length ∧ s.flights[i]? = some c) := by
    rcases Nat.lt_trichotomy i s.flights.length with hlt | rfl | hgt
    · rw [List.getElem?_append_left hlt] at hc
      exact .inr ⟨hlt, hc⟩
    · rw [List.getElem?_append_right (Nat.le_refl _), Nat.sub_self] at hc
      exact .inl ⟨rfl, (Option.some.inj hc).symm⟩
    · rw [List.getElem?_eq_none (by simp; omega)] at hc
      cases hc
  have hold {i : ℕ} {c : Flight} (hc : s.flights[i]? = some c) :
      (s.flights ++ [⟨workspace, stage⟩])[i]? = some c := by
    rw [List.getElem?_append_left (List.getElem?_eq_some_iff.mp hc).1]
    exact hc
  refine ⟨?_, ?_, ?_, ?_⟩
  · intro i j a b hij ha hb hw hb'
    rcases hget ha with ⟨rfl, rfl⟩ | ⟨hi, ha⟩ <;> rcases hget hb with ⟨rfl, rfl⟩ | ⟨hj, hb⟩
    · exact absurd hij (Nat.lt_irrefl _)
    · omega
    · -- the new flight runs only when all flights of its workspace have settled
      cases hqueue : s.ensureQueue workspace with
      | none => exact h.idle hqueue i a ha hw
      | some previous =>
        rw [hqueue] at hstage
        subst hstage
        exact hb'.elim
    · exact h.ordered hij ha hb hw hb'
  · intro j k b hb hk
    rcases hget hb with ⟨rfl, rfl⟩ | ⟨hj, hb⟩
    · have hk : stage = .waiting k := hk
      cases hqueue : s.ensureQueue workspace with
      | none =>
        rw [hqueue, hk] at hstage
        cases hstage
      | some previous =>
        rw [hqueue, hk] at hstage
        obtain rfl : k = previous := by injection hstage
        obtain ⟨⟨a, ha, hw⟩, hnone⟩ := h.last hqueue
        refine ⟨(List.getElem?_eq_some_iff.mp ha).1, ⟨a, hold ha, hw⟩, fun i c hki hij hc => ?_⟩
        rcases hget hc with ⟨rfl, -⟩ | ⟨-, hc⟩
        · exact absurd hij (Nat.lt_irrefl _)
        · exact hnone i c hki hc
    · obtain ⟨hlt, ⟨a, ha, hw⟩, hnone⟩ := h.behind hb hk
      refine ⟨hlt, ⟨a, hold ha, hw⟩, fun i c hki hij hc => ?_⟩
      rcases hget hc with ⟨rfl, -⟩ | ⟨-, hc⟩
      · omega
      · exact hnone i c hki hij hc
  · intro w k hk
    by_cases hw : w = workspace
    · subst hw
      have hk : some s.flights.length = some k := by simpa using hk
      obtain rfl := Option.some.inj hk
      refine ⟨⟨⟨w, stage⟩, by simp, rfl⟩, fun i c hki hc => ?_⟩
      rcases hget hc with ⟨rfl, -⟩ | ⟨hi, -⟩ <;> omega
    · have hk : s.ensureQueue w = some k := by simpa [Function.update_of_ne hw] using hk
      obtain ⟨⟨a, ha, haw⟩, hnone⟩ := h.last hk
      refine ⟨⟨a, hold ha, haw⟩, fun i c hki hc => ?_⟩
      rcases hget hc with ⟨-, rfl⟩ | ⟨-, hc⟩
      · exact Ne.symm hw
      · exact hnone i c hki hc
  · intro w hw i c hc hcw
    have hne : w ≠ workspace := by
      rintro rfl
      simp at hw
    have hw : s.ensureQueue w = none := by simpa [Function.update_of_ne hne] using hw
    rcases hget hc with ⟨-, rfl⟩ | ⟨-, hc⟩
    · exact absurd hcw.symm hne
    · exact h.idle hw i c hc hcw

lemma Queued.congr (h : Queued s) (hflights : t.flights = s.flights)
    (hqueue : t.ensureQueue = s.ensureQueue) : Queued t := by
  refine ⟨?_, ?_, ?_, ?_⟩ <;> rw [hflights]
  · exact h.ordered
  · exact h.behind
  · rw [hqueue]
    exact h.last
  · rw [hqueue]
    exact h.idle

end Queue

/-! ### Steps -/

section Steps

variable {E : McpPackages} {parentId : String → Option String} {s t : EnsureState S} {n i : ℕ}
  {d : Delivery}

lemma step_resolved (h : s.step E parentId (.resolved i) = some t) :
    ∃ workspace stage, (stage = match s.ensureQueue workspace with
        | none => .running (runEnsureBuiltInMcpServers E)
        | some previous => .waiting previous) ∧
      t = { s with
        resolving := s.resolving.eraseIdx i
        flights := s.flights ++ [⟨workspace, stage⟩]
        ensureQueue := Function.update s.ensureQueue workspace (some s.flights.length) } := by
  rw [EnsureState.step] at h
  split at h
  · cases h
  · exact ⟨_, _, rfl, (Option.some.inj h).symm⟩

lemma step_request (h : s.step E parentId (.request n d) = some t) :
    ∃ workspace q next, s.flights[n]? = some ⟨workspace, .running (.ask q next)⟩ ∧
      t = (s.set n ⟨workspace, .running (.ask q next)⟩ (.running
          (next (Client.deliver Tenant.serve (s.tenants workspace) q d).1))).setTenant workspace
        (Client.deliver Tenant.serve (s.tenants workspace) q d).2 := by
  rw [EnsureState.step] at h
  split at h
  · next workspace q next hflight => exact ⟨workspace, q, next, hflight, (Option.some.inj h).symm⟩
  · cases h

lemma step_settle (h : s.step E parentId (.settle n) = some t) :
    ∃ workspace result, s.flights[n]? = some ⟨workspace, .running (.done result)⟩ ∧
      t = s.set n ⟨workspace, .running (.done result)⟩ (.settled result) := by
  rw [EnsureState.step] at h
  split at h
  · next workspace result hflight => exact ⟨workspace, result, hflight, (Option.some.inj h).symm⟩
  · cases h

lemma step_start (h : s.step E parentId (.start n) = some t) :
    ∃ workspace previous, s.flights[n]? = some ⟨workspace, .waiting previous⟩ ∧
      (∃ other result, s.flights[previous]? = some ⟨other, .settled result⟩) ∧
      t = s.set n ⟨workspace, .waiting previous⟩ (.running (runEnsureBuiltInMcpServers E)) := by
  rw [EnsureState.step] at h
  split at h
  · next workspace previous hflight =>
    split at h
    · next other result hprevious =>
      exact ⟨workspace, previous, hflight, ⟨other, result, hprevious⟩, (Option.some.inj h).symm⟩
    · cases h
  · cases h

lemma step_forget (h : s.step E parentId (.forget n) = some t) :
    t = s ∨ ∃ workspace result, s.flights[n]? = some ⟨workspace, .settled result⟩ ∧
      s.ensureQueue workspace = some n ∧
      t = { s with ensureQueue := Function.update s.ensureQueue workspace none } := by
  rw [EnsureState.step] at h
  split at h
  · next workspace result hflight =>
    split at h
    · next hqueue => exact .inr ⟨workspace, result, hflight, hqueue, (Option.some.inj h).symm⟩
    · exact .inl (Option.some.inj h).symm
  · cases h

/-- A flight behind one that has settled is behind settled ones only. -/
lemma Queued.settled_before (h : Queued s) {workspace : String} {k : ℕ}
    (hn : s.flights[n]? = some ⟨workspace, .waiting k⟩)
    (hk : ∃ other result, s.flights[k]? = some ⟨other, .settled result⟩) (j : ℕ) (a : Flight)
    (hjn : j < n) (ha : s.flights[j]? = some a) (hw : a.workspace = workspace) :
    a.stage.over := by
  obtain ⟨other, result, hk⟩ := hk
  obtain ⟨-, ⟨b, hb, hbw⟩, hnone⟩ := h.behind hn rfl
  obtain rfl := Option.some.inj (hk.symm.trans hb)
  rcases Nat.lt_trichotomy j k with hlt | rfl | hgt
  · exact h.ordered hlt ha hb (hw.trans hbw.symm) trivial
  · obtain rfl := Option.some.inj (ha.symm.trans hb)
    trivial
  · exact absurd hw (hnone j a hgt hjn ha)

lemma Queued.step (h : Queued s) {e : EnsureEvent} (hstep : s.step E parentId e = some t) :
    Queued t := by
  cases e with
  | call tenantId =>
    obtain rfl := Option.some.inj hstep
    exact h.congr rfl rfl
  | resolved i =>
    obtain ⟨workspace, stage, hstage, rfl⟩ := step_resolved hstep
    exact h.append workspace _ _ hstage
  | unresolved i =>
    rw [EnsureState.step] at hstep
    split_ifs at hstep
    obtain rfl := Option.some.inj hstep
    exact h.congr rfl rfl
  | request n d =>
    obtain ⟨workspace, q, next, hn, rfl⟩ := step_request hstep
    have hset : Queued (s.set n ⟨workspace, .running (.ask q next)⟩ (.running
        (next (Client.deliver Tenant.serve (s.tenants workspace) q d).1))) := by
      refine h.set hn trivial id fun i a hin ha hw => ?_
      exact h.ordered hin ha hn hw trivial
    exact hset.congr rfl rfl
  | settle n =>
    obtain ⟨workspace, result, hn, rfl⟩ := step_settle hstep
    refine h.set hn trivial (fun _ => trivial) fun i a hin ha hw => ?_
    exact h.ordered hin ha hn hw trivial
  | start n =>
    obtain ⟨workspace, k, hn, hk, rfl⟩ := step_start hstep
    exact h.set hn trivial False.elim (h.settled_before hn hk)
  | forget n =>
    rcases step_forget hstep with rfl | ⟨workspace, result, hn, hqueue, rfl⟩
    · exact h
    refine ⟨h.ordered, h.behind, fun {w k} hk => ?_, fun {w} hw i c hc hcw => ?_⟩
    · have hne : w ≠ workspace := by
        rintro rfl
        simp at hk
      exact h.last (by simpa [Function.update_of_ne hne] using hk)
    · by_cases hne : w = workspace
      · -- the flight in the map is the last of its workspace, and it has settled
        subst hne
        rcases Nat.lt_trichotomy i n with hlt | rfl | hgt
        · exact h.ordered hlt hc hn hcw trivial
        · obtain rfl := Option.some.inj (hc.symm.trans hn)
          trivial
        · exact absurd hcw ((h.last hqueue).2 i c hgt hc)
      · exact h.idle (by simpa [Function.update_of_ne hne] using hw) i c hc hcw
  | other workspace q =>
    obtain rfl := Option.some.inj hstep
    exact h.congr rfl rfl

/-- No two bodies of a workspace run at once. -/
lemma Queued.exclusive (h : Queued s) {i j : ℕ} {w : String} {p q : Call (List McpServer)}
    (hi : s.flights[i]? = some ⟨w, .running p⟩) (hj : s.flights[j]? = some ⟨w, .running q⟩) :
    i = j := by
  rcases Nat.lt_trichotomy i j with hlt | rfl | hgt
  · exact (h.ordered hlt hi hj rfl trivial).elim
  · rfl
  · exact (h.ordered hgt hj hi rfl trivial).elim

/-- A flight that waits for a failed one can start, and nothing but its start ends its waiting. -/
lemma waits_for_failed {k : ℕ} {w w' : String} {message : String}
    (hn : s.flights[n]? = some ⟨w, .waiting k⟩)
    (hk : s.flights[k]? = some ⟨w', .settled (.error message)⟩) :
    (∃ t, s.step E parentId (.start n) = some t ∧
      t.flights[n]? = some ⟨w, .running (runEnsureBuiltInMcpServers E)⟩) ∧
    ∀ e t, s.step E parentId e = some t →
      t.flights[n]? = some ⟨w, .running (runEnsureBuiltInMcpServers E)⟩ ∨
      (t.flights[n]? = some ⟨w, .waiting k⟩ ∧
        t.flights[k]? = some ⟨w', .settled (.error message)⟩) := by
  have hlt : n < s.flights.length := (List.getElem?_eq_some_iff.mp hn).1
  have hset (m : ℕ) (flight : Flight) (stage : Stage) (hmn : m ≠ n) (hmk : m ≠ k) :
      (s.set m flight stage).flights[n]? = some ⟨w, .waiting k⟩ ∧
        (s.set m flight stage).flights[k]? = some ⟨w', .settled (.error message)⟩ := by
    rw [EnsureState.set, List.getElem?_set_ne hmn, List.getElem?_set_ne hmk]
    exact ⟨hn, hk⟩
  have hrun : (s.set n ⟨w, .waiting k⟩ (.running (runEnsureBuiltInMcpServers E))).flights[n]? =
      some ⟨w, .running (runEnsureBuiltInMcpServers E)⟩ := by
    rw [EnsureState.set, List.getElem?_set_self hlt]
  refine ⟨⟨_, ?_, hrun⟩, fun e t hstep => ?_⟩
  · rw [EnsureState.step]
    rw [hn]
    dsimp only
    rw [hk]
  cases e with
  | call tenantId =>
    obtain rfl := Option.some.inj hstep
    exact .inr ⟨hn, hk⟩
  | resolved i =>
    obtain ⟨workspace, stage, -, rfl⟩ := step_resolved hstep
    refine .inr ⟨?_, ?_⟩
    · rw [List.getElem?_append_left hlt]
      exact hn
    · rw [List.getElem?_append_left (List.getElem?_eq_some_iff.mp hk).1]
      exact hk
  | unresolved i =>
    rw [EnsureState.step] at hstep
    split_ifs at hstep
    obtain rfl := Option.some.inj hstep
    exact .inr ⟨hn, hk⟩
  | request m d =>
    obtain ⟨workspace, q, next, hm, rfl⟩ := step_request hstep
    refine .inr (hset m _ _ ?_ ?_)
    · rintro rfl
      cases hm.symm.trans hn
    · rintro rfl
      cases hm.symm.trans hk
  | settle m =>
    obtain ⟨workspace, result, hm, rfl⟩ := step_settle hstep
    refine .inr (hset m _ _ ?_ ?_)
    · rintro rfl
      cases hm.symm.trans hn
    · rintro rfl
      cases hm.symm.trans hk
  | start m =>
    obtain ⟨workspace, previous, hm, -, rfl⟩ := step_start hstep
    by_cases hmn : m = n
    · subst hmn
      cases hm.symm.trans hn
      exact .inl hrun
    · refine .inr (hset m _ _ hmn ?_)
      rintro rfl
      cases hm.symm.trans hk
  | forget m =>
    rcases step_forget hstep with rfl | ⟨workspace, result, -, -, rfl⟩
    · exact .inr ⟨hn, hk⟩
    · exact .inr ⟨hn, hk⟩
  | other workspace q =>
    obtain rfl := Option.some.inj hstep
    exact .inr ⟨hn, hk⟩

end Steps

/-! ### The credential of a handle -/

section Names

variable {E : McpPackages} {t u : Tenant S} {handle : String}

/-- Every credential that records a server under the handle has the handle's name. -/
structure UsesName (handle : String) (t : Tenant S) : Prop where
  consistent : t.Consistent
  named : ∀ row ∈ t.credentials, ∀ stored, row.metadata.mcp = some stored →
    stored.handle = handle → row.name = mcpCredentialName handle

/-- The request records no server under the handle but on a credential of the handle's name. -/
def Allowed (handle : String) (t : Tenant S) : Request → Prop
  | .createCredential _ name _ metadata => ∀ stored, metadata.mcp = some stored →
    stored.handle = handle → name = mcpCredentialName handle
  | .patchCredential id metadata => ∀ stored, metadata.mcp = some stored →
    stored.handle = handle →
    ∀ row ∈ t.credentials, row.id = id → row.name = mcpCredentialName handle
  | _ => True

lemma UsesName.of_subset (h : UsesName handle t) (hu : u.Consistent)
    (hrows : ∀ row ∈ u.credentials, row ∈ t.credentials) : UsesName handle u :=
  ⟨hu, fun row hrow => h.named row (hrows row hrow)⟩

lemma UsesName.serve (h : UsesName handle t) (q : Request) (hq : Allowed handle t q) :
    UsesName handle (t.serve q).2 := by
  have hconsistent := h.consistent.serve q
  cases q with
  | createCredential providerId name secret metadata =>
    refine ⟨hconsistent, ?_⟩
    simp only [Tenant.serve, Tenant.createCredential]
    split_ifs
    · exact h.named
    · exact h.named
    · intro row hrow stored hstored hhandle
      rcases List.mem_cons.mp hrow with rfl | hrow
      · exact hq stored hstored hhandle
      · exact h.named row hrow stored hstored hhandle
  | patchCredential id metadata =>
    refine ⟨hconsistent, ?_⟩
    simp only [Tenant.serve, Tenant.patchCredential]
    cases t.credentials.find? (·.id = id) with
    | none => exact h.named
    | some found =>
      intro row hrow stored hstored hhandle
      obtain ⟨old, hold, rfl⟩ := List.mem_map.mp hrow
      by_cases hid : old.id = id
      · rw [if_pos hid] at hstored ⊢
        exact hq stored hstored hhandle old hold hid
      · rw [if_neg hid] at hstored ⊢
        exact h.named old hold stored hstored hhandle
  | _ => exact h.of_subset hconsistent (Tenant.credentials_subset rfl).2

/-- The credential with this id, if it is there, has the handle's name. -/
def Named (handle : String) (c : Id) (t : Tenant S) : Prop :=
  c < t.nextId ∧ ∀ row ∈ t.credentials, row.id = c → row.name = mcpCredentialName handle

lemma Named.grows {c : Id} (h : Named handle c t) (hgrows : t.Grows u) : Named handle c u := by
  refine ⟨Nat.lt_of_lt_of_le h.1 hgrows.nextId, fun row hrow hid => ?_⟩
  obtain ⟨old, hold, hidold, hname⟩ := hgrows.names row hrow (hid ▸ h.1)
  exact hname ▸ h.2 old hold (hidold.trans hid)

/-- An allowed request, amid others. -/
lemma respects_request {q : Request} {otherwise : String}
    {post : Except String q.Body → Tenant S → Prop}
    (hallowed : ∀ u, t.Grows u → Allowed handle u q)
    (herror : ∀ message u, t.Grows u → post (.error message) u)
    (hok : ∀ body u, t.Grows u → UsesName handle u → (u.serve q).1 = .ok body →
      post (.ok body) (u.serve q).2) :
    (request q otherwise).Respects Tenant.serve Client.anyDelivery Tenant.Grows (UsesName handle)
      post t := by
  intro u hgrows hu
  have hafter : t.Grows (u.serve q).2 := hgrows.trans (u.grows_serve q)
  refine ⟨hu.serve q (hallowed u hgrows), fun d _ => ?_⟩
  cases d with
  | answered =>
    rw [Client.deliver]
    cases hanswer : (u.serve q).1 with
    | ok body => exact hok body u hgrows hu hanswer
    | notFound => exact herror _ _ hafter
    | conflict => exact herror _ _ hafter
    | failed => exact herror _ _ hafter
  | refused => exact herror _ _ hgrows
  | unreached => exact herror _ _ hgrows
  | lost => exact herror _ _ hafter

lemma respects_drop (t : Tenant S) (handle : String) (c : Id) (cause : String) :
    ((deleteCredential c).bind fun _ => (.fail cause : Call McpServer)).Respects Tenant.serve
      Client.anyDelivery Tenant.Grows (UsesName handle) (fun _ _ => True) t := by
  intro u _ hu
  refine ⟨hu.serve _ trivial, fun d _ => ?_⟩
  cases d <;> trivial

lemma respects_recordCatalog {c : Id} (h : Named handle c t) (providerId : Id)
    (label url : String) (auth : McpAuthKind) (existing : Metadata) :
    (recordCatalog c providerId handle label url auth existing).Respects Tenant.serve
      Client.anyDelivery Tenant.Grows (UsesName handle) (fun _ _ => True) t := by
  refine (Client.respects_andThen _ _).mpr (respects_request (fun _ _ => trivial) ?_ ?_)
  · exact fun message u _ => respects_drop u handle c message
  · intro tools u hgrows _ _
    have hnamed : Named handle c u := h.grows hgrows
    intro v hgrows' hv
    refine ⟨hv.serve _ ?_, fun d _ => ?_⟩
    · rintro stored - - row hrow hid
      exact (hnamed.grows hgrows').2 row hrow hid
    · generalize Client.deliver Tenant.serve v _ d = delivered
      obtain ⟨(answer | _ | _), w⟩ := delivered
      · cases answer with
        | ok body => trivial
        | notFound => exact respects_drop w handle c _
        | conflict => exact respects_drop w handle c _
        | failed => exact respects_drop w handle c _
      · exact respects_drop w handle c _
      · trivial

lemma respects_ensureMcpProvider (t : Tenant S) (handle name url : String) :
    (ensureMcpProvider E name url).Respects Tenant.serve Client.anyDelivery Tenant.Grows
      (UsesName handle) (fun _ _ => True) t := by
  refine (Client.respects_bind _ _).mpr (respects_request (fun _ _ => trivial)
    (fun _ _ _ => trivial) ?_)
  intro providers u _ _ _
  dsimp only
  cases providers.find? (·.name = mcpProviderName name) with
  | some existing => trivial
  | none =>
    cases E.origin url with
    | none => trivial
    | some origin =>
      exact (Client.respects_bind _ _).mpr (respects_request (fun _ _ => trivial)
        (fun _ _ _ => trivial) fun _ _ _ _ _ => trivial)

/-- An add under a handle uses the handle's name, whatever else goes on. -/
lemma respects_addMcpServer (t : Tenant S) (input : AddMcpServerInput) :
    (addMcpServer E input).Respects Tenant.serve Client.anyDelivery Tenant.Grows
      (UsesName input.handle) (fun _ _ => True) t := by
  refine (Client.respects_bind _ _).mpr
    ((respects_ensureMcpProvider t input.handle input.handle input.url).mono ?_)
  rintro (message | providerId) u -
  · trivial
  refine (Client.respects_bind _ _).mpr ((Client.respects_bind _ _).mpr
    (respects_request (fun _ _ _ _ _ => rfl) (fun _ _ _ => trivial) ?_))
  intro stored v _ hv hstored
  obtain ⟨hfields, hafter⟩ := Tenant.createCredential_ok hstored
  -- the id of the new row was given to no other
  refine respects_recordCatalog ⟨?_, fun row hrow hid => ?_⟩ _ _ _ _ _
  · rw [Tenant.serve, hafter, hfields]
    exact Nat.lt_succ_self _
  · have hrows := (hv.consistent.createCredential providerId (mcpCredentialName input.handle)
      (input.token.getD E.noTokenSentinel) { mcp := some ⟨input.handle, input.name, input.url,
        if input.token.isNone then .none else .token, []⟩ }).credentials
    rw [hafter] at hrows
    rw [Tenant.serve, hafter] at hrow
    obtain rfl := hrows.eq_of_id hrow List.mem_cons_self hid
    rw [hfields]

lemma respects_runEnsureBuiltInMcpServers (t : Tenant S) :
    (runEnsureBuiltInMcpServers E).Respects Tenant.serve Client.anyDelivery Tenant.Grows
      (UsesName exaMcpServer.handle) (fun _ _ => True) t := by
  refine (Client.respects_bind _ _).mpr ((Client.respects_bind _ _).mpr
    (respects_request (fun _ _ => trivial) (fun _ _ _ => trivial) ?_))
  intro providers u _ _ _
  refine (Client.respects_bind _ _).mpr (respects_request (fun _ _ => trivial)
    (fun _ _ _ => trivial) ?_)
  intro credentials v _ _ _
  refine (Client.respects_done _).mpr ?_
  dsimp only
  split_ifs
  · trivial
  · have hadd := respects_addMcpServer (E := E) v
      ⟨exaMcpServer.handle, exaMcpServer.name, exaMcpServer.url, none⟩
    refine (Client.respects_bind _ _).mpr (hadd.mono ?_)
    rintro (_ | _) _ - <;> trivial

/-- Two credentials that record a server under the handle are one. -/
lemma UsesName.unique (h : UsesName handle t) {a b : Credential} {stored stored' : StoredMcp}
    (ha : a ∈ t.credentials) (hb : b ∈ t.credentials) (hsa : a.metadata.mcp = some stored)
    (hsb : b.metadata.mcp = some stored') (hha : stored.handle = handle)
    (hhb : stored'.handle = handle) : a = b :=
  h.consistent.credentials.eq_of_key ha hb
    ((h.named a ha stored hsa hha).trans (h.named b hb stored' hsb hhb).symm)

end Names

/-! ### Runs -/

/-- The state in which no call has been made. -/
def EnsureState.start (tenants : String → Tenant S) : EnsureState S :=
  ⟨tenants, [], [], fun _ => none⟩

/-- Other clients record no server under the built-in handle but on a credential of its name. -/
def AddsNoServer (s : EnsureState S) : EnsureEvent → Prop
  | .other workspace q => Allowed exaMcpServer.handle (s.tenants workspace) q
  | _ => True

/-- The tenants are as they should be, and every running body keeps them so. -/
structure Serial (s : EnsureState S) : Prop where
  queued : Queued s
  names : ∀ w, UsesName exaMcpServer.handle (s.tenants w)
  bodies : ∀ {n : ℕ} {w : String} {p : Call (List McpServer)},
    s.flights[n]? = some ⟨w, .running p⟩ →
    p.Respects Tenant.serve Client.anyDelivery Tenant.Grows (UsesName exaMcpServer.handle)
      (fun _ _ => True) (s.tenants w)

section Runs

variable {E : McpPackages} {parentId : String → Option String} {s t : EnsureState S}

lemma Serial.start {tenants : String → Tenant S}
    (h : ∀ w, UsesName exaMcpServer.handle (tenants w)) : Serial (EnsureState.start tenants) := by
  refine ⟨⟨?_, ?_, ?_, ?_⟩, h, ?_⟩ <;> simp [EnsureState.start]

/-- A step that changes no tenant and runs no body but a new one. -/
lemma Serial.of_flights (h : Serial s) (hqueued : Queued t) (htenants : t.tenants = s.tenants)
    (hflights : ∀ (n : ℕ) (w : String) (p : Call (List McpServer)),
      t.flights[n]? = some ⟨w, .running p⟩ →
        s.flights[n]? = some ⟨w, .running p⟩ ∨ p = runEnsureBuiltInMcpServers E) :
    Serial t where
  queued := hqueued
  names := by
    rw [htenants]
    exact h.names
  bodies {n w p} hn := by
    rw [htenants]
    rcases hflights n w p hn with hold | rfl
    · exact h.bodies hold
    · exact respects_runEnsureBuiltInMcpServers _

/-- A tenant that grows, and stays as it should be, leaves the bodies of its workspace so. -/
lemma Serial.grow (h : Serial s) {workspace : String} {u : Tenant S}
    (hgrows : (s.tenants workspace).Grows u) (hu : UsesName exaMcpServer.handle u) (w : String) :
    UsesName exaMcpServer.handle (Function.update s.tenants workspace u w) ∧
      ∀ {n : ℕ} {p : Call (List McpServer)}, s.flights[n]? = some ⟨w, .running p⟩ →
        p.Respects Tenant.serve Client.anyDelivery Tenant.Grows (UsesName exaMcpServer.handle)
          (fun _ _ => True) (Function.update s.tenants workspace u w) := by
  by_cases hw : w = workspace
  · subst hw
    rw [Function.update_self]
    exact ⟨hu, fun hn => (h.bodies hn).stable hgrows Tenant.Grows.trans fun _ _ => trivial⟩
  · rw [Function.update_of_ne hw]
    exact ⟨h.names w, fun hn => h.bodies hn⟩

/-- **Every step keeps the calls in order and the names.** -/
lemma Serial.step (h : Serial s) {e : EnsureEvent} (hguard : AddsNoServer s e)
    (hstep : s.step E parentId e = some t) : Serial t := by
  have hqueued := h.queued.step hstep
  cases e with
  | call tenantId =>
    obtain rfl := Option.some.inj hstep
    exact h.of_flights (E := E) hqueued rfl fun _ _ _ hn => .inl hn
  | resolved i =>
    obtain ⟨workspace, stage, hstage, rfl⟩ := step_resolved hstep
    refine h.of_flights (E := E) hqueued rfl fun n w p hn => ?_
    rcases Nat.lt_trichotomy n s.flights.length with hlt | rfl | hgt
    · rw [List.getElem?_append_left hlt] at hn
      exact .inl hn
    · rw [List.getElem?_append_right (Nat.le_refl _), Nat.sub_self] at hn
      cases hn
      right
      cases hqueue : s.ensureQueue workspace with
      | none =>
        rw [hqueue] at hstage
        injection hstage
      | some previous =>
        rw [hqueue] at hstage
        cases hstage
    · rw [List.getElem?_eq_none (by simp; omega)] at hn
      cases hn
  | unresolved i =>
    rw [EnsureState.step] at hstep
    split_ifs at hstep
    obtain rfl := Option.some.inj hstep
    exact h.of_flights (E := E) hqueued rfl fun _ _ _ hn => .inl hn
  | request n d =>
    obtain ⟨workspace, q, next, hn, rfl⟩ := step_request hstep
    obtain ⟨hkeeps, hrest⟩ := h.bodies hn _ (.refl _) (h.names workspace)
    have hafter : (s.tenants workspace).Grows
          (Client.deliver Tenant.serve (s.tenants workspace) q d).2 ∧
        UsesName exaMcpServer.handle (Client.deliver Tenant.serve (s.tenants workspace) q d).2 := by
      cases d with
      | answered | lost => exact ⟨Tenant.grows_serve _ q, hkeeps⟩
      | refused | unreached => exact ⟨.refl _, h.names workspace⟩
    refine ⟨hqueued, fun w => (h.grow hafter.1 hafter.2 w).1, fun {m w p} hm => ?_⟩
    rcases flights_set hm with ⟨-, hflight⟩ | ⟨-, hm⟩
    · obtain ⟨rfl, hp⟩ := Flight.mk.inj hflight
      obtain rfl := Stage.running.inj hp
      change Client.Respects _ _ _ _ _ _ (Function.update s.tenants w _ w)
      rw [Function.update_self]
      exact hrest d trivial
    · exact (h.grow hafter.1 hafter.2 w).2 hm
  | settle n =>
    obtain ⟨workspace, result, hn, rfl⟩ := step_settle hstep
    refine h.of_flights (E := E) hqueued rfl fun m w p hm => ?_
    rcases flights_set hm with ⟨-, hflight⟩ | ⟨-, hm⟩
    · cases hflight
    · exact .inl hm
  | start n =>
    obtain ⟨workspace, k, hn, hk, rfl⟩ := step_start hstep
    refine h.of_flights (E := E) hqueued rfl fun m w p hm => ?_
    rcases flights_set hm with ⟨-, hflight⟩ | ⟨-, hm⟩
    · obtain ⟨rfl, hp⟩ := Flight.mk.inj hflight
      exact .inr (Stage.running.inj hp)
    · exact .inl hm
  | forget n =>
    rcases step_forget hstep with rfl | ⟨workspace, result, -, -, rfl⟩
    · exact h
    · exact h.of_flights (E := E) hqueued rfl fun _ _ _ hn => .inl hn
  | other workspace q =>
    obtain rfl := Option.some.inj hstep
    have hgrow := h.grow (Tenant.grows_serve (s.tenants workspace) q)
      ((h.names workspace).serve q hguard)
    exact ⟨hqueued, fun w => (hgrow w).1, fun {n w p} hn => (hgrow w).2 hn⟩

end Runs

/-- **The built-in server is added once.** A workspace holds at most one credential with its
handle, no two bodies for a workspace overlap, and a call queued behind a failed one runs. -/
theorem ensureBuiltIn_serial {S : Services} (E : McpPackages) (parentId : String → Option String)
    (tenants : String → Tenant S) (hstart : ∀ w, UsesName exaMcpServer.handle (tenants w))
    {s : EnsureState S} (h : Transition.Reach (EnsureState.step E parentId) AddsNoServer
      (EnsureState.start tenants) s) :
    (∀ w a b stored stored', a ∈ (s.tenants w).credentials → b ∈ (s.tenants w).credentials →
      a.metadata.mcp = some stored → b.metadata.mcp = some stored' →
      stored.handle = exaMcpServer.handle → stored'.handle = exaMcpServer.handle → a = b) ∧
    (∀ (i j : ℕ) w p q, s.flights[i]? = some ⟨w, .running p⟩ →
      s.flights[j]? = some ⟨w, .running q⟩ → i = j) ∧
    (∀ (n k : ℕ) w w' message, s.flights[n]? = some ⟨w, .waiting k⟩ →
      s.flights[k]? = some ⟨w', .settled (.error message)⟩ →
      (∃ t, s.step E parentId (.start n) = some t ∧
        t.flights[n]? = some ⟨w, .running (runEnsureBuiltInMcpServers E)⟩) ∧
      ∀ e t, s.step E parentId e = some t →
        t.flights[n]? = some ⟨w, .running (runEnsureBuiltInMcpServers E)⟩ ∨
        (t.flights[n]? = some ⟨w, .waiting k⟩ ∧
          t.flights[k]? = some ⟨w', .settled (.error message)⟩)) := by
  have hserial : Serial s :=
    h.invariant (.start hstart) fun _ _ _ ht hguard hstep => ht.step hguard hstep
  refine ⟨?_, ?_, ?_⟩
  · intro w a b stored stored' ha hb hsa hsb hha hhb
    exact (hserial.names w).unique ha hb hsa hsb hha hhb
  · intro i j w p q hi hj
    exact hserial.queued.exclusive hi hj
  · intro n k w w' message hn hk
    exact waits_for_failed hn hk

/-- Two calls for benches of one workspace; the listing of the first one is refused. -/
def failedFirst : List EnsureEvent :=
  [.call "bench", .call "other", .resolved 0, .resolved 0, .request 0 .refused, .settle 0]

def workspaceOf (tenantId : String) : Option String :=
  if tenantId = "bench" ∨ tenantId = "other" then some "workspace" else none

/-- The second call can start behind the first one, which has failed. -/
theorem ensureBuiltIn_serial_failed :
    ∃ s, Transition.run (EnsureState.step knownPackages workspaceOf)
        (EnsureState.start fun _ => emptyTenant) failedFirst = some s ∧
      ∃ t, s.step knownPackages workspaceOf (.start 1) = some t ∧
        t.flights[1]? =
          some ⟨"workspace", .running (runEnsureBuiltInMcpServers knownPackages)⟩ := by
  have hstart : ∀ w : String, UsesName exaMcpServer.handle ((fun _ => emptyTenant) w) :=
    fun _ => ⟨.empty _, by simp [emptyTenant, Tenant.empty]⟩
  have hallowed : ∀ e ∈ failedFirst, ∀ s : EnsureState openHub, AddsNoServer s e := by
    intro e he s
    simp only [failedFirst, List.mem_cons, List.not_mem_nil, or_false] at he
    rcases he with rfl | rfl | rfl | rfl | rfl | rfl <;> trivial
  refine ⟨_, rfl, ?_⟩
  exact ((ensureBuiltIn_serial knownPackages workspaceOf (fun _ => emptyTenant) hstart
    (Transition.reach_of_allowed hallowed rfl)).2.2 1 0 "workspace" "workspace"
    "listing the MCP providers failed" rfl rfl).1

end Workbench.Web
