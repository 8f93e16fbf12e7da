import Workbench.Workflow.ApplyEvent
import Workbench.Workflow.Routes
import Workbench.Workflow.StepIds

/-!
Which steps of a run can be started.
-/

namespace Workbench.Workflow

open Workbench.Lib Workbench.Lib.DepthFirst

structure WorkflowDefinition where
  steps : Steps
  stepOrder : List String
  /-- the record is gone through as it was written -/
  ordered : stepOrder = steps.keys

/-! ### What a resumed run goes on with -/

def kindOf (steps : Steps) (stepId : String) : Option String :=
  (steps.get stepId).map fun primitive => primitive.kind.text

def isResumableLoopStep (steps : Steps) (stepId : String) (phase : StepPhase) : Bool :=
  (phase = .inFlight || phase = .awaitingSignal) && kindOf steps (baseStepId stepId) = some "loop"

def isResumableAwaitingSignalStep (steps : Steps) (stepId : String) (phase : StepPhase) : Bool :=
  phase = .awaitingSignal &&
    (kindOf steps stepId = some "awaitSignal" || kindOf steps stepId = some "step")

def isResumableReceivedAwaitSignalStep (steps : Steps) (stepId : String) (phase : StepPhase) :
    Bool :=
  phase = .inFlight && kindOf steps stepId = some "awaitSignal"

def isResumableOnTriggerStep (steps : Steps) (stepId : String) (phase : StepPhase) : Bool :=
  (phase = .inFlight || phase = .awaitingSignal) &&
    kindOf steps (baseStepId stepId) = some "onTrigger"

def isCrashedInvocationStep (steps : Steps) (stepId : String) (phase : StepPhase) : Bool :=
  phase = .inFlight && (kindOf steps stepId = some "step" || kindOf steps stepId = some "action")

def isResumableSleepStep (steps : Steps) (stepId : String) (phase : StepPhase) : Bool :=
  (phase = .awaitingTimer || phase = .inFlight) && kindOf steps stepId = some "sleep"

def isResumableChildWorkflowStep (steps : Steps) (stepId : String) (phase : StepPhase) : Bool :=
  (phase = .inFlight || phase = .awaitingSignal) && kindOf steps stepId = some "childWorkflow"

/-- The step is one that is offered again while it is not settled. -/
def isReoffered (steps : Steps) (stepId : String) (phase : StepPhase) : Bool :=
  isResumableLoopStep steps stepId phase || isResumableAwaitingSignalStep steps stepId phase ||
    isResumableReceivedAwaitSignalStep steps stepId phase ||
    isResumableOnTriggerStep steps stepId phase || isResumableSleepStep steps stepId phase ||
    isResumableChildWorkflowStep steps stepId phase

inductive ResumeResidual
  | continue
  | crashedInvocation
  | unsupported
  deriving DecidableEq, Repr

def resumeResidualOf (steps : Steps) (stepId : String) (phase : StepPhase) : ResumeResidual :=
  if isReoffered steps stepId phase then .continue
  else if isCrashedInvocationStep steps stepId phase then .crashedInvocation
  else if phase = .inFlight ∨ phase = .awaitingSignal ∨ phase = .awaitingTimer then .unsupported
  else .continue

/-! ### What is started -/

variable {π : Type}

/-- The step of the run is settled. -/
def isSettled (state : RunState π) (stepId : String) : Bool :=
  (state.steps.get stepId).any fun step => isTerminalStepPhase step.phase

def areDepsResolved (primitive : Primitive) (state : RunState π) : Bool :=
  primitive.after.all (isSettled state)

/-- The step has a state, and is not offered again in it. -/
def isTaken (steps : Steps) (state : RunState π) (stepId : String) : Bool :=
  (state.steps.get stepId).any fun existing => !isReoffered steps stepId existing.phase

/-- The ids of the primitives to start. -/
def nextSchedulable (d : WorkflowDefinition) (state : RunState π) (inFlight : List String) :
    List String :=
  if state.phase ≠ .running then []
  else d.stepOrder.filter fun stepId =>
    stepId ∉ inFlight && !isTaken d.steps state stepId &&
      (d.steps.get stepId).any (areDepsResolved · state)

def isRunDone (d : WorkflowDefinition) (state : RunState π) : Bool :=
  isTerminalRunPhase state.phase || d.stepOrder.all (isSettled state)

def hasFailedStep (state : RunState π) : Bool :=
  state.steps.values.any fun step => step.phase = .failed

variable {d : WorkflowDefinition} {state : RunState π} {stepId : String}

lemma isReoffered_of_continue {steps : Steps} {phase : StepPhase}
    (h : resumeResidualOf steps stepId phase = .continue)
    (hlive : isTerminalStepPhase phase = false) :
    isReoffered steps stepId phase := by
  unfold resumeResidualOf at h
  split_ifs at h with hreoffered hcrashed hphase
  · exact hreoffered
  · cases phase <;> simp [isTerminalStepPhase] at hlive hphase

/-- A step that is not settled is not taken, where every step of the run is one to go on with. -/
lemma isTaken_eq_false (hresume : ∀ stepId step, state.steps.get stepId = some step →
      resumeResidualOf d.steps stepId step.phase = .continue)
    (hopen : isSettled state stepId = false) : isTaken d.steps state stepId = false := by
  unfold isSettled at hopen
  unfold isTaken
  cases hget : state.steps.get stepId with
  | none => rfl
  | some step =>
    rw [hget, Option.any_some] at hopen
    rw [Option.any_some, isReoffered_of_continue (hresume stepId step hget) hopen]
    rfl

/-- **A run does not stall**: with nothing in flight, and no step that it cannot go on with, a run
that is not done has a step to start. -/
theorem done_or_schedulable (hrefs : validateAfterRefs d.steps = .ok ())
    (hacyclic : validateAcyclic d.steps = .ok ()) (hrunning : state.phase = .running)
    (hresume : ∀ stepId step, state.steps.get stepId = some step →
      resumeResidualOf d.steps stepId step.phase = .continue) :
    isRunDone d state ∨ nextSchedulable d state [] ≠ [] := by
  -- the steps that are not settled, of which one comes after settled ones only
  let unsettled := d.steps.keys.filter fun stepId => !isSettled state stepId
  by_cases hdone : unsettled = []
  · left
    rw [isRunDone, d.ordered, Bool.or_eq_true, List.all_eq_true]
    refine .inr fun stepId hkey => ?_
    simpa using List.filter_eq_nil_iff.mp hdone stepId hkey
  right
  obtain ⟨stepId, hmem, hdeps⟩ :=
    exists_depsWithin_eq_nil (acyclic_of_validateAcyclic hacyclic) hdone
  obtain ⟨hkey, hopen⟩ := List.mem_filter.mp hmem
  obtain ⟨primitive, hget⟩ := OrderedMap.mem_keys.1 hkey
  have hresolved : areDepsResolved primitive state := by
    refine List.all_eq_true.mpr fun dep hdep => ?_
    have hknown := (wellReferenced_of_validateAfterRefs hrefs).after stepId primitive hget hdep
    have hout : dep ∉ unsettled := by
      intro hin
      have hwithin := mem_depsWithin.2 ⟨mem_followers.2 ⟨primitive, hget, hdep⟩, hin⟩
      rw [hdeps] at hwithin
      cases hwithin
    simpa [unsettled, hknown] using hout
  have hoffered : stepId ∈ nextSchedulable d state [] := by
    rw [nextSchedulable, if_neg (not_not.mpr hrunning), List.mem_filter, d.ordered]
    refine ⟨hkey, ?_⟩
    simp [isTaken_eq_false hresume (by simpa using hopen), hget, hresolved]
  exact List.ne_nil_of_mem hoffered

def sampleDefinition : WorkflowDefinition := ⟨sampleSteps, sampleSteps.keys, rfl⟩

theorem done_or_schedulable_sample :
    isRunDone sampleDefinition { emptyState (π := String) "r" with phase := .running } ∨
      nextSchedulable sampleDefinition { emptyState (π := String) "r" with phase := .running } [] ≠
        [] :=
  done_or_schedulable rfl rfl rfl (by rintro _ _ ⟨⟩)

end Workbench.Workflow
