import Workbench.Lib.Transition
import Mathlib.Logic.Function.Basic

/-!
Agents that are put back to work, by a surface on its own or by a person.

A surface claims an agent's asset before it redeploys it, and the claim is given back when a
redeploy of the asset settles. A person's restart goes through the same mutation without a claim of
its own, so that its end gives back the claim of a surface whose redeploy is still running.
-/

namespace Workbench.Web.AutoRedeploy

open Workbench.Lib Workbench.Lib.Transition

inductive MutationStatus
  | idle
  | pending
  | success
  | error
  deriving DecidableEq, Repr

/-- A mounted `AgentRedeployer`. -/
structure Surface where
  asset : String
  started : Bool
  redeploy : MutationStatus
  deriving DecidableEq, Repr

inductive Starter
  | auto (surface : ℕ)
  | manual
  deriving DecidableEq, Repr

/-- A redeploy in flight. -/
structure Redeploy where
  asset : String
  starter : Starter
  deriving DecidableEq, Repr

structure State where
  /-- the set `inFlight` -/
  claimed : String → Bool
  surfaces : ℕ → Option Surface
  redeploys : ℕ → Option Redeploy
  nextSurface : ℕ
  nextRedeploy : ℕ

def init : State := ⟨fun _ => false, fun _ => none, fun _ => none, 0, 0⟩

inductive Event
  | mount (asset : String)
  | unmount (surface : ℕ)
  /-- a surface is rendered for an agent, and its effect runs -/
  | effect (surface : ℕ) (asset : String)
  | restart (asset : String)
  | settle (redeploy : ℕ) (succeeded : Bool)
  deriving DecidableEq, Repr

namespace State

variable (s : State)

def setSurface (i : ℕ) (surface : Option Surface) : State :=
  { s with surfaces := Function.update s.surfaces i surface }

/-- `redeploy.mutate` -/
def mutate (redeploy : Redeploy) : State :=
  { s with
    redeploys := Function.update s.redeploys s.nextRedeploy (some redeploy)
    nextRedeploy := s.nextRedeploy + 1 }

/-- `claimAutoRedeploy`, where nothing holds the asset -/
def claimAutoRedeploy (asset : String) : State :=
  { s with claimed := Function.update s.claimed asset true }

def releaseAutoRedeploy (asset : String) : State :=
  { s with claimed := Function.update s.claimed asset false }

/-- The effect of a surface. -/
def runEffect (i : ℕ) (surface : Surface) : State :=
  if surface.started || surface.redeploy = .pending || surface.redeploy = .success then
    s.setSurface i (some surface)
  else if s.claimed surface.asset then s.setSurface i (some { surface with started := true })
  else
    (((s.setSurface i (some { surface with started := true, redeploy := .pending })
      ).claimAutoRedeploy surface.asset).mutate ⟨surface.asset, .auto i⟩)

/-- What a surface that is still mounted sees of its redeploy's end. -/
def observe (starter : Starter) (succeeded : Bool) : State :=
  match starter with
  | .auto i => s.setSurface i ((s.surfaces i).map fun surface =>
      { surface with redeploy := if succeeded then .success else .error })
  | .manual => s

end State

def step (s : State) : Event → Option State
  | .mount asset => some { s.setSurface s.nextSurface (some ⟨asset, false, .idle⟩) with
      nextSurface := s.nextSurface + 1 }
  | .unmount i => (s.surfaces i).map fun _ => s.setSurface i none
  | .effect i asset => (s.surfaces i).map fun surface =>
      s.runEffect i { surface with asset := asset }
  | .restart asset => some (s.mutate ⟨asset, .manual⟩)
  | .settle r succeeded => (s.redeploys r).map fun redeploy =>
      (({ s with redeploys := Function.update s.redeploys r none }
        ).releaseAutoRedeploy redeploy.asset).observe redeploy.starter succeeded

/-! ### Claims and redeploys -/

/-- A redeploy that a surface has started. -/
def State.AutoInFlight (s : State) (asset : String) (r : ℕ) : Prop :=
  ∃ i, s.redeploys r = some ⟨asset, .auto i⟩

/-- At most one automatic redeploy of an asset is in flight. -/
def State.OneAtATime (s : State) : Prop :=
  ∀ asset r r', s.AutoInFlight asset r → s.AutoInFlight asset r' → r = r'

/-- When no automatic redeploy of an asset is in flight, it is not claimed. -/
def State.NoneClaimed (s : State) : Prop :=
  ∀ asset, (∀ r, ¬ s.AutoInFlight asset r) → s.claimed asset = false

/-- No restart by a person settles while a surface's redeploy of the same asset is in flight. -/
def apart (s : State) : Event → Prop
  | .settle r _ => ∀ asset, s.redeploys r = some ⟨asset, .manual⟩ → ∀ r', ¬ s.AutoInFlight asset r'
  | _ => True

/-- What changes of the claims and the redeploys in a step. -/
inductive Changes (s : State) : Event → State → Prop
  | nothing {e t} (claimed : t.claimed = s.claimed) (redeploys : t.redeploys = s.redeploys)
    (next : t.nextRedeploy = s.nextRedeploy) : Changes s e t
  | claims {i asset t} (free : s.claimed asset = false)
    (claimed : t.claimed = Function.update s.claimed asset true)
    (redeploys : t.redeploys =
      Function.update s.redeploys s.nextRedeploy (some ⟨asset, .auto i⟩))
    (next : t.nextRedeploy = s.nextRedeploy + 1) : Changes s (.effect i asset) t
  | restarts {asset t} (claimed : t.claimed = s.claimed)
    (redeploys : t.redeploys =
      Function.update s.redeploys s.nextRedeploy (some ⟨asset, .manual⟩))
    (next : t.nextRedeploy = s.nextRedeploy + 1) : Changes s (.restart asset) t
  | settles {r succeeded redeploy t} (flying : s.redeploys r = some redeploy)
    (claimed : t.claimed = Function.update s.claimed redeploy.asset false)
    (redeploys : t.redeploys = Function.update s.redeploys r none)
    (next : t.nextRedeploy = s.nextRedeploy) : Changes s (.settle r succeeded) t

variable {s t : State} {e : Event} {asset : String} {r r' : ℕ}

/-- **Every step is one of these.** -/
lemma changes_of_step (h : step s e = some t) : Changes s e t := by
  cases e with
  | mount asset =>
    obtain rfl := Option.some.inj h
    exact .nothing rfl rfl rfl
  | unmount i =>
    obtain ⟨surface, -, rfl⟩ := Option.map_eq_some_iff.mp h
    exact .nothing rfl rfl rfl
  | effect i asset =>
    obtain ⟨surface, -, rfl⟩ := Option.map_eq_some_iff.mp h
    unfold State.runEffect
    split_ifs with hstarted hclaimed
    · exact .nothing rfl rfl rfl
    · exact .nothing rfl rfl rfl
    · exact .claims (Bool.eq_false_iff.mpr hclaimed) rfl rfl rfl
  | restart asset =>
    obtain rfl := Option.some.inj h
    exact .restarts rfl rfl rfl
  | settle r succeeded =>
    obtain ⟨⟨asset, starter⟩, hflying, rfl⟩ := Option.map_eq_some_iff.mp h
    cases starter with
    | auto i => exact .settles hflying rfl rfl rfl
    | manual => exact .settles hflying rfl rfl rfl

/-- Redeploys are numbered in the order of their starts. -/
def State.Numbered (s : State) : Prop := ∀ r, s.redeploys r ≠ none → r < s.nextRedeploy

lemma State.Numbered.step (h : s.Numbered) (hc : Changes s e t) : t.Numbered := by
  intro r hr
  cases hc with
  | nothing claimed redeploys next =>
    rw [redeploys] at hr
    rw [next]
    exact h r hr
  | claims free claimed redeploys next | restarts claimed redeploys next =>
    rw [redeploys] at hr
    rw [next]
    by_cases heq : r = s.nextRedeploy
    · omega
    · rw [Function.update_of_ne heq] at hr
      have := h r hr
      omega
  | settles flying claimed redeploys next =>
    rw [redeploys] at hr
    rw [next]
    refine h r fun hnone => hr ?_
    rw [Function.update_apply, hnone, ite_self]

lemma State.Numbered.fresh (h : s.Numbered) : s.redeploys s.nextRedeploy = none := by
  by_contra hne
  exact Nat.lt_irrefl _ (h _ hne)

section Started

variable {redeploy : Redeploy}

lemma auto_of_started (hr : t.redeploys =
      Function.update s.redeploys s.nextRedeploy (some redeploy))
    (h : t.AutoInFlight asset r) :
    (r = s.nextRedeploy ∧ ∃ i, redeploy = ⟨asset, .auto i⟩) ∨ s.AutoInFlight asset r := by
  obtain ⟨i, hi⟩ := h
  rw [hr] at hi
  by_cases heq : r = s.nextRedeploy
  · subst heq
    rw [Function.update_self] at hi
    exact .inl ⟨rfl, i, Option.some.inj hi⟩
  · rw [Function.update_of_ne heq] at hi
    exact .inr ⟨i, hi⟩

lemma auto_started_of (hnumbered : s.Numbered) (hr : t.redeploys =
      Function.update s.redeploys s.nextRedeploy (some redeploy))
    (h : s.AutoInFlight asset r) : t.AutoInFlight asset r := by
  obtain ⟨i, hi⟩ := h
  refine ⟨i, ?_⟩
  have hne : r ≠ s.nextRedeploy := by
    rintro rfl
    rw [hnumbered.fresh] at hi
    cases hi
  rw [hr, Function.update_of_ne hne, hi]

end Started

lemma auto_settled_iff (hr : t.redeploys = Function.update s.redeploys r none) :
    t.AutoInFlight asset r' ↔ r' ≠ r ∧ s.AutoInFlight asset r' := by
  unfold State.AutoInFlight
  rw [hr]
  by_cases heq : r' = r
  · subst heq
    simp
  · simp [heq]

/-- A claim belongs to a redeploy in flight. -/
def State.Backed (s : State) : Prop := ∀ asset, s.claimed asset → ∃ r, s.AutoInFlight asset r

/-- A surface's redeploy in flight is the only one of its asset, and holds the claim. -/
def State.Held (s : State) : Prop :=
  (∀ asset r, s.AutoInFlight asset r → s.claimed asset) ∧ s.OneAtATime

lemma State.Backed.step (h : s.Backed) (hnumbered : s.Numbered) (hc : Changes s e t) :
    t.Backed := by
  intro asset hasset
  cases hc with
  | nothing claimed redeploys next =>
    rw [claimed] at hasset
    obtain ⟨r, i, hi⟩ := h asset hasset
    exact ⟨r, i, redeploys ▸ hi⟩
  | @claims i other t free claimed redeploys next =>
    by_cases heq : asset = other
    · subst heq
      exact ⟨s.nextRedeploy, i, by rw [redeploys, Function.update_self]⟩
    · rw [claimed, Function.update_of_ne heq] at hasset
      obtain ⟨r, hr⟩ := h asset hasset
      exact ⟨r, auto_started_of hnumbered redeploys hr⟩
  | restarts claimed redeploys next =>
    rw [claimed] at hasset
    obtain ⟨r, hr⟩ := h asset hasset
    exact ⟨r, auto_started_of hnumbered redeploys hr⟩
  | @settles r succeeded redeploy t flying claimed redeploys next =>
    -- a claim that is left is that of another asset
    have hne : asset ≠ redeploy.asset := by
      rintro rfl
      rw [claimed, Function.update_self] at hasset
      cases hasset
    rw [claimed, Function.update_of_ne hne] at hasset
    obtain ⟨r', i, hi⟩ := h asset hasset
    refine ⟨r', (auto_settled_iff redeploys).mpr ⟨?_, i, hi⟩⟩
    rintro rfl
    rw [flying] at hi
    obtain rfl := Option.some.inj hi
    exact hne rfl

lemma State.Held.step (h : s.Held) (hguard : apart s e) (hc : Changes s e t) : t.Held := by
  obtain ⟨hclaimed, hone⟩ := h
  cases hc with
  | nothing claimed redeploys next =>
    have hiff (asset : String) (r : ℕ) : t.AutoInFlight asset r ↔ s.AutoInFlight asset r := by
      unfold State.AutoInFlight
      rw [redeploys]
    refine ⟨fun asset r hr => ?_, fun asset r r' hr hr' => ?_⟩
    · rw [claimed]
      exact hclaimed asset r ((hiff _ _).mp hr)
    · exact hone asset r r' ((hiff _ _).mp hr) ((hiff _ _).mp hr')
  | @claims i other t free claimed redeploys next =>
    -- nothing of the asset was in flight, as it was not claimed
    have hnone (r : ℕ) : ¬ s.AutoInFlight other r := by
      intro hr
      rw [hclaimed other r hr] at free
      cases free
    refine ⟨fun asset r hr => ?_, fun asset r r' hr hr' => ?_⟩
    · rw [claimed]
      by_cases heq : asset = other
      · rw [heq, Function.update_self]
      · rw [Function.update_of_ne heq]
        rcases auto_of_started redeploys hr with ⟨-, j, hj⟩ | hr
        · exact absurd (congrArg Redeploy.asset hj).symm heq
        · exact hclaimed asset r hr
    · rcases auto_of_started redeploys hr with ⟨rfl, j, hj⟩ | hr <;>
        rcases auto_of_started redeploys hr' with ⟨rfl, j', hj'⟩ | hr'
      · rfl
      · obtain rfl : other = asset := congrArg Redeploy.asset hj
        exact absurd hr' (hnone r')
      · obtain rfl : other = asset := congrArg Redeploy.asset hj'
        exact absurd hr (hnone r)
      · exact hone asset r r' hr hr'
  | restarts claimed redeploys next =>
    have hold {asset : String} {r : ℕ} (hr : t.AutoInFlight asset r) :
        s.AutoInFlight asset r := by
      rcases auto_of_started redeploys hr with ⟨-, i, hi⟩ | hr
      · cases hi
      · exact hr
    refine ⟨fun asset r hr => ?_, fun asset r r' hr hr' => hone asset r r' (hold hr) (hold hr')⟩
    rw [claimed]
    exact hclaimed asset r (hold hr)
  | @settles r succeeded redeploy t flying claimed redeploys next =>
    refine ⟨fun asset r' hr' => ?_, fun asset r' r'' hr' hr'' => ?_⟩
    · obtain ⟨hne, hr'⟩ := (auto_settled_iff redeploys).mp hr'
      have hother : asset ≠ redeploy.asset := by
        rintro rfl
        obtain ⟨asset, i | _⟩ := redeploy
        · exact hne (hone asset r' r hr' ⟨i, flying⟩)
        · exact hguard asset flying r' hr'
      rw [claimed, Function.update_of_ne hother]
      exact hclaimed asset r' hr'
    · exact hone asset r' r'' ((auto_settled_iff redeploys).mp hr').2
        ((auto_settled_iff redeploys).mp hr'').2

lemma State.Backed.noneClaimed (h : s.Backed) : s.NoneClaimed := by
  intro asset hnone
  refine Bool.eq_false_iff.mpr fun hclaimed => ?_
  obtain ⟨r, hr⟩ := h asset hclaimed
  exact hnone r hr

/-- **Redeploys of surfaces exclude each other**, and a claim outlives none of them, in every state
of every run in which no restart by a person settles while a surface redeploys the same asset. -/
theorem autoRedeploy_exclusive (h : Reach step apart init s) : s.OneAtATime ∧ s.NoneClaimed := by
  have hnone (asset : String) (r : ℕ) : ¬ init.AutoInFlight asset r := by
    rintro ⟨i, hi⟩
    cases hi
  have hinit : init.Numbered ∧ init.Backed ∧ init.Held :=
    ⟨fun r hr => absurd rfl hr, fun asset h => (Bool.false_ne_true h).elim,
      fun asset r hr => absurd hr (hnone asset r), fun asset r r' hr => absurd hr (hnone asset r)⟩
  have hinv : s.Numbered ∧ s.Backed ∧ s.Held := by
    refine h.invariant (I := fun s => s.Numbered ∧ s.Backed ∧ s.Held) hinit ?_
    rintro s e t ⟨hnumbered, hbacked, hheld⟩ hguard hstep
    have hc := changes_of_step hstep
    exact ⟨hnumbered.step hc, hbacked.step hnumbered hc, hheld.step hguard hc⟩
  exact ⟨hinv.2.2.2, hinv.2.1.noneClaimed⟩

/-- Enough of the guard to be checked: a person's restart does not settle. -/
def restartsStay (s : State) : Event → Bool
  | .settle r _ => (s.redeploys r).all (·.starter ≠ .manual)
  | _ => true

lemma apart_of_restartsStay (h : restartsStay s e) : apart s e := by
  cases e with
  | settle r succeeded =>
    intro asset hmanual
    simp [restartsStay, hmanual] at h
  | _ => trivial

/-- A person's restart is in flight while the redeploy of one surface fails and the next begins. -/
def restartedBeside : List Event :=
  [.mount "scout", .effect 0 "scout", .restart "scout", .settle 0 false, .mount "scout",
    .effect 1 "scout"]

theorem autoRedeploy_exclusive_restarted : ∃ s, run step init restartedBeside = some s ∧
    s.AutoInFlight "scout" 2 ∧ s.OneAtATime ∧ s.NoneClaimed := by
  have hrun : ∃ s, run (fun s e => if restartsStay s e then step s e else none) init
      restartedBeside = some s ∧ run step init restartedBeside = some s ∧
      s.AutoInFlight "scout" 2 := ⟨_, rfl, rfl, 1, rfl⟩
  obtain ⟨s, hchecked, hrun, hauto⟩ := hrun
  exact ⟨s, hrun, hauto,
    autoRedeploy_exclusive (reach_of_checked (fun _ _ => apart_of_restartsStay) hchecked)⟩

/-- Between the two surfaces a person's restart starts and ends. -/
def restartedBetween : List Event :=
  [.mount "scout", .effect 0 "scout", .restart "scout", .settle 1 true, .mount "scout",
    .effect 1 "scout"]

theorem two_redeploys_at_once : ∃ s, run step init restartedBetween = some s ∧
    s.AutoInFlight "scout" 0 ∧ s.AutoInFlight "scout" 2 ∧ ¬ s.OneAtATime := by
  refine ⟨_, rfl, ⟨0, rfl⟩, ⟨1, rfl⟩, fun h => ?_⟩
  exact absurd (h "scout" 0 2 ⟨0, rfl⟩ ⟨1, rfl⟩) (by decide)

end Workbench.Web.AutoRedeploy
