import Workbench.Catalog.RunningAgent
import Workbench.Lib.Transition

/-!
The sources of a deployment, at the three places where a sidecar has them.

A new list is kept for the next child first, then written to the record of the deployment, and last
delivered to the child that runs. A child can be replaced at any time in between. The frames for one
deployment are handled one after the other.
-/

namespace Workbench.Catalog

open Workbench.Lib Workbench.Lib.Transition

/-- The child of a supervisor; one that was started has its sources and is not installed yet. -/
inductive Child
  | running (sources : List InferenceSource)
  | replaced
  | started (sources : List InferenceSource)
  deriving DecidableEq, Repr

/-- The sources that the child has. -/
def Child.sources : Child → Option (List InferenceSource)
  | running sources | started sources => some sources
  | replaced => none

structure Deployment where
  /-- what the next child is started with -/
  currentSources : List InferenceSource
  record : List InferenceSource
  /-- the list before the one that is being written, and the list that is -/
  rotating : Option (List InferenceSource × List InferenceSource)
  child : Child
  deriving DecidableEq, Repr

def deployed (sources : List InferenceSource) : Deployment :=
  ⟨sources, sources, none, .running sources⟩

inductive RotationEvent
  /-- the handler for `sources.update` keeps the list and starts to write it -/
  | rotate (sources : List InferenceSource)
  /-- the list is written, and `deliverSources` is called -/
  | persisted
  /-- the list could not be written -/
  | persistFailed
  /-- the child exits, or is stopped for a recycle -/
  | recycle
  | spawned
  /-- the new child is installed -/
  | ready
  /-- the sidecar starts again -/
  | restarted
  deriving DecidableEq, Repr

/-- `deliverSources` throws unless a child runs. -/
def Child.deliver (sources : List InferenceSource) : Child → Child
  | .running _ => .running sources
  | child => child

def rotationStep (s : Deployment) : RotationEvent → Option Deployment
  | .rotate sources =>
    if s.rotating.isSome then none
    else some { s with currentSources := sources, rotating := some (s.currentSources, sources) }
  | .persisted => s.rotating.map fun rotation =>
    { s with record := rotation.2, rotating := none, child := s.child.deliver rotation.2 }
  | .persistFailed => s.rotating.map fun rotation =>
    { s with currentSources := rotation.1, rotating := none }
  | .recycle =>
    match s.child with
    | .running _ => some { s with child := .replaced }
    | _ => none
  | .spawned =>
    match s.child with
    | .replaced => some { s with child := .started s.currentSources }
    | _ => none
  | .ready =>
    match s.child with
    | .started sources => some { s with child := .running sources }
    | _ => none
  | .restarted => some (deployed s.record)

/-- A list is written and delivered, or goes to a child that was started with it; and where it could
not be written, no child was started with it. -/
def Orderly (s : Deployment) : RotationEvent → Prop
  | .persisted => ∀ before sources child, s.rotating = some (before, sources) →
    s.child = .started child → child = sources
  | .persistFailed => ∀ before sources child, s.rotating = some (before, sources) →
    s.child.sources = some child → child = before
  | _ => True

/-- What is kept and what is written are the same but for a rotation, and the child has one of the
two. -/
def Deployment.Consistent (s : Deployment) : Prop :=
  match s.rotating with
  | none => s.currentSources = s.record ∧ ∀ child, s.child.sources = some child → child = s.record
  | some (before, sources) => s.currentSources = sources ∧ s.record = before ∧
    ∀ child, s.child.sources = some child → child = before ∨ child = sources

variable {s t : Deployment} {e : RotationEvent} {sources : List InferenceSource}

lemma consistent_deployed : (deployed sources).Consistent :=
  ⟨rfl, fun _ h => (Option.some.inj h).symm⟩

/-- What a change of the child leaves as it is. -/
lemma consistent_of_child (h : s.Consistent) {child : Child}
    (hchild : ∀ sources, child.sources = some sources →
      s.child.sources = some sources ∨ sources = s.currentSources) :
    ({ s with child := child } : Deployment).Consistent := by
  unfold Deployment.Consistent at h ⊢
  dsimp only
  split at h
  · refine ⟨h.1, fun sources hsources => ?_⟩
    rcases hchild sources hsources with hsame | hcurrent
    · exact h.2 sources hsame
    · exact hcurrent.trans h.1
  · refine ⟨h.1, h.2.1, fun sources hsources => ?_⟩
    rcases hchild sources hsources with hsame | hcurrent
    · exact h.2.2 sources hsame
    · exact .inr (hcurrent.trans h.1)

lemma Deployment.Consistent.idle (h : s.Consistent) (hidle : s.rotating = none) :
    s.currentSources = s.record ∧ ∀ child, s.child.sources = some child → child = s.record := by
  unfold Deployment.Consistent at h
  rwa [hidle] at h

lemma Deployment.Consistent.busy {before : List InferenceSource} (h : s.Consistent)
    (hrotating : s.rotating = some (before, sources)) :
    s.currentSources = sources ∧ s.record = before ∧
      ∀ child, s.child.sources = some child → child = before ∨ child = sources := by
  unfold Deployment.Consistent at h
  rwa [hrotating] at h

/-- Once a list is written, the child has it unless it was started with another one. -/
lemma agrees_persisted {before : List InferenceSource}
    (hrotating : s.rotating = some (before, sources)) :
    (∀ child, (s.child.deliver sources).sources = some child → child = sources) ↔
      Orderly s .persisted := by
  have horderly : Orderly s .persisted ↔ ∀ child, s.child = .started child → child = sources := by
    constructor
    · exact fun h child hchild => h before sources child hrotating hchild
    · rintro h before' sources' child hsame hchild
      obtain ⟨-, rfl⟩ := Prod.mk.inj (Option.some.inj (hrotating.symm.trans hsame))
      exact h child hchild
  rw [horderly]
  cases s.child with
  | running held => exact ⟨nofun, fun _ child h => (Option.some.inj h).symm⟩
  | replaced => exact ⟨nofun, nofun⟩
  | started held =>
    constructor
    · rintro h child hchild
      exact h child (congrArg Child.sources hchild)
    · rintro h child hchild
      exact h child (congrArg Child.started (Option.some.inj hchild))

/-- Where a list could not be written, the child has the list before unless it was started with the
new one. -/
lemma agrees_failed {before : List InferenceSource}
    (hrotating : s.rotating = some (before, sources)) :
    (∀ child, s.child.sources = some child → child = before) ↔ Orderly s .persistFailed := by
  constructor
  · rintro h before' sources' child hsame hchild
    obtain ⟨rfl, -⟩ := Prod.mk.inj (Option.some.inj (hrotating.symm.trans hsame))
    exact h child hchild
  · exact fun h child hchild => h before sources child hrotating hchild

/-- **A step** keeps the three places together, unless it is not an orderly one. -/
lemma consistent_step (h : s.Consistent) (hstep : rotationStep s e = some t)
    (horderly : Orderly s e) : t.Consistent := by
  cases e with
  | rotate sources =>
    rw [rotationStep] at hstep
    split_ifs at hstep with hbusy
    obtain rfl := Option.some.inj hstep
    obtain ⟨hsame, hchild⟩ := h.idle (by simpa using hbusy)
    exact ⟨rfl, hsame.symm, fun child hheld => .inl ((hchild child hheld).trans hsame.symm)⟩
  | persisted =>
    obtain ⟨⟨before, sources⟩, hrotating, rfl⟩ := Option.map_eq_some_iff.mp hstep
    exact ⟨(h.busy hrotating).1, (agrees_persisted hrotating).mpr horderly⟩
  | persistFailed =>
    obtain ⟨⟨before, sources⟩, hrotating, rfl⟩ := Option.map_eq_some_iff.mp hstep
    obtain ⟨-, hrecord, -⟩ := h.busy hrotating
    refine ⟨hrecord.symm, fun child hheld => ?_⟩
    exact ((agrees_failed hrotating).mpr horderly child hheld).trans hrecord.symm
  | recycle =>
    rw [rotationStep] at hstep
    split at hstep
    · exact Option.some.inj hstep ▸ consistent_of_child h nofun
    · cases hstep
  | spawned =>
    rw [rotationStep] at hstep
    split at hstep
    · exact Option.some.inj hstep ▸ consistent_of_child h
        fun sources hsources => .inr (Option.some.inj hsources).symm
    · cases hstep
  | ready =>
    rw [rotationStep] at hstep
    split at hstep
    · next held hchild =>
      refine Option.some.inj hstep ▸ consistent_of_child h fun sources hsources => .inl ?_
      rw [hchild]
      exact hsources
    · cases hstep
  | restarted => exact Option.some.inj hstep ▸ consistent_deployed

/-- A deployment that writes a new list, while a child that was started with the old one is not
installed yet. -/
def overtaken : Deployment := ⟨[], [largeSource], some ([largeSource], []), .started [largeSource]⟩

end Workbench.Catalog
