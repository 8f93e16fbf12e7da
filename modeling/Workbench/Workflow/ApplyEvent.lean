import Workbench.Lib.Replay
import Workbench.Workflow.RunState

/-!
The transition function of a workflow run.

Every event is taken or refused as a whole. What a taken event does is said once, by `Takes`: one
case for each way through the function, with the checks that were passed on it.
-/

namespace Workbench.Workflow

open Workbench.Lib

inductive TransitionErrorCode
  | sequence
  | terminalPhase
  | phase
  | unknownStep
  | unknownChild
  | stepPhase
  | attempt
  | timer
  | cancelOrigin
  | consumedMessage
  | stepAlreadyStarted
  | childAlreadySpawned
  deriving DecidableEq, Repr

structure TransitionError (π : Type) where
  code : TransitionErrorCode
  message : String
  event : WorkflowEvent π
  deriving DecidableEq, Repr

variable {π : Type}

/-- The text of the thrown error. -/
def TransitionError.text (error : TransitionError π) : String :=
  "transition error at seq " ++ toString error.event.seq ++ " (" ++ error.event.body.kind ++
    "): " ++ error.message

def requireRunPhase (state : RunState π) (event : WorkflowEvent π) (expected : RunPhase) :
    Except (TransitionError π) Unit :=
  if state.phase ≠ expected then
    .error ⟨.phase, "expected phase " ++ expected.text ++ ", was " ++ state.phase.text, event⟩
  else .ok ()

def requireStep (state : RunState π) (event : WorkflowEvent π) (stepId : String) :
    Except (TransitionError π) StepState :=
  match state.steps.get stepId with
  | none => .error ⟨.unknownStep, "unknown step " ++ stepId, event⟩
  | some step => .ok step

def handleRunStarted (state : RunState π) (e : WorkflowEvent π) (definitionHash : String)
    (consumedMessageId : Option String) : Except (TransitionError π) (RunState π) :=
  if state.phase ≠ .pending then
    .error ⟨.phase, "RunStarted in phase " ++ state.phase.text, e⟩
  else
    match consumedMessageId with
    | none => .ok { state with
        phase := .running
        definitionHash := some definitionHash
        lastSeq := e.seq }
    | some id =>
      if id ∈ state.consumedMessageIds.elements then
        .error ⟨.consumedMessage, "RunStarted re-issued for consumed message-id " ++ id, e⟩
      else .ok { state with
        phase := .running
        definitionHash := some definitionHash
        consumedMessageIds := state.consumedMessageIds.insert id
        lastSeq := e.seq }

def handleStepStarted (state : RunState π) (e : WorkflowEvent π) (stepId : String) (attempt : ℤ) :
    Except (TransitionError π) (RunState π) := do
  requireRunPhase state e .running
  if state.steps.has stepId then
    .error ⟨.stepAlreadyStarted, "StepStarted for step " ++ stepId ++
      " which already has state; retries enter via AttemptScheduled + TimerFired", e⟩
  else .ok { state with
    steps := state.steps.set stepId
      { stepId := stepId, phase := .inFlight, currentAttempt := attempt, outputRef := none,
        lastError := none, awaitingSignal := none, awaitingTimerId := none }
    lastSeq := e.seq }

def handleStepCompleted (state : RunState π) (e : WorkflowEvent π) (stepId outputRef : String) :
    Except (TransitionError π) (RunState π) := do
  let step ← requireStep state e stepId
  if isTerminalStepPhase step.phase then
    .error ⟨.stepPhase, "StepCompleted for step already in terminal phase " ++ step.phase.text, e⟩
  else .ok { state with
    steps := state.steps.set stepId
      { step.withoutAwaiters with phase := .completed, outputRef := some outputRef }
    lastSeq := e.seq }

def handleStepFailed (state : RunState π) (e : WorkflowEvent π) (stepId : String)
    (error : StepError) (routedTo : Option String) : Except (TransitionError π) (RunState π) := do
  let step ← requireStep state e stepId
  if isTerminalStepPhase step.phase then
    .error ⟨.stepPhase, "StepFailed for step already in terminal phase " ++ step.phase.text, e⟩
  else
    -- absence is checked, so an empty handler id routes as well
    let phase : StepPhase := if routedTo ≠ none then .routed else .failed
    .ok { state with
      steps := state.steps.set stepId
        { step.withoutAwaiters with phase := phase, lastError := some error }
      lastSeq := e.seq }

def handleAttemptScheduled (state : RunState π) (e : WorkflowEvent π) (stepId : String)
    (nextAttempt : ℤ) (timerId : String) : Except (TransitionError π) (RunState π) := do
  let step ← requireStep state e stepId
  if step.phase = .completed ∨ step.phase = .routed ∨ step.phase = .cancelled then
    .error ⟨.stepPhase, "AttemptScheduled refused to resurrect step " ++ stepId ++ " from " ++
      step.phase.text, e⟩
  else if step.currentAttempt ≥ nextAttempt then
    .error ⟨.attempt, "AttemptScheduled with non-increasing attempt (current=" ++
      toString step.currentAttempt ++ ", next=" ++ toString nextAttempt ++ ")", e⟩
  else
    match state.pendingTimers.get timerId with
    | none => .error ⟨.timer, "AttemptScheduled references unknown timer " ++ timerId ++
        "; runtime must emit TimerSet first", e⟩
    | some timer =>
      if timer.stepId ≠ some stepId then
        .error ⟨.timer, "AttemptScheduled timer " ++ timerId ++ " is bound to step " ++
          timer.stepId.getD "<none>" ++ ", not " ++ stepId, e⟩
      else .ok { state with
        steps := state.steps.set stepId
          { step with
            currentAttempt := nextAttempt
            phase := .awaitingTimer
            awaitingTimerId := some timerId }
        lastSeq := e.seq }

/-- The queues without the head of one; a queue that is empty then goes. -/
def setQueue {α : Type} (queues : OrderedMap String (List α)) (key : String)
    (remaining : List α) : OrderedMap String (List α) :=
  if remaining = [] then queues.keep (· ≠ key) else queues.set key remaining

def awaitCorrelated (state : RunState π) (step : StepState) (e : WorkflowEvent π)
    (stepId : String) (awaiting : AwaitingSignal) (correlationId : String) : RunState π :=
  let queue := (state.unconsumedByCorrelation.get correlationId).getD []
  match queue.find? (·.signalName = awaiting.name) with
  | some _ => { state with
      steps := state.steps.set stepId { step.withoutAwaiters with phase := .inFlight }
      unconsumedByCorrelation := setQueue state.unconsumedByCorrelation correlationId
        (queue.eraseP (·.signalName = awaiting.name))
      lastSeq := e.seq }
  | none => { state with
      steps := state.steps.set stepId
        { step with phase := .awaitingSignal, awaitingSignal := some awaiting }
      lastSeq := e.seq }

def handleSignalAwaited (state : RunState π) (e : WorkflowEvent π) (stepId : String)
    (awaiting : AwaitingSignal) : Except (TransitionError π) (RunState π) := do
  let step ← requireStep state e stepId
  match awaiting.correlationId with
  | some correlationId => .ok (awaitCorrelated state step e stepId awaiting correlationId)
  | none =>
    match (state.unconsumedSignals.get awaiting.name).getD [] with
    | _ :: remaining => .ok { state with
        steps := state.steps.set stepId { step.withoutAwaiters with phase := .inFlight }
        unconsumedSignals := setQueue state.unconsumedSignals awaiting.name remaining
        lastSeq := e.seq }
    | [] => .ok { state with
        steps := state.steps.set stepId
          { step with phase := .awaitingSignal, awaitingSignal := some awaiting }
        lastSeq := e.seq }

/-- The step is parked under the id, whatever the name. -/
def holdsCorrelation (correlationId : String) (step : StepState) : Bool :=
  step.phase = .awaitingSignal && step.awaitingSignal.bind (·.correlationId) = some correlationId

/-- The step waits for a delivery of the name, with or without an id. -/
def awaitsOn (signalName : String) (correlationId : Option String) (step : StepState) : Bool :=
  step.phase = .awaitingSignal && step.awaitingSignal.any fun awaiting =>
    awaiting.name = signalName && awaiting.correlationId = correlationId

def consumeAwaiter (state : RunState π) (e : WorkflowEvent π) (signalId : String)
    (awaiterId : String) (awaiter : StepState) : RunState π :=
  { state with
    steps := state.steps.set awaiterId { awaiter.withoutAwaiters with phase := .inFlight }
    observedSignalIds := state.observedSignalIds.insert signalId
    lastSeq := e.seq }

def receiveCorrelated (state : RunState π) (e : WorkflowEvent π) (signalName signalId : String)
    (payload : π) (correlationId : String) : RunState π :=
  match state.steps.entries.find? fun entry => awaitsOn signalName (some correlationId) entry.2 with
  | some (id, step) => consumeAwaiter state e signalId id step
  | none =>
    if state.steps.entries.any fun entry => holdsCorrelation correlationId entry.2 then
      -- the id is live under another name: the delivery counts as seen, and nothing more
      { state with
        observedSignalIds := state.observedSignalIds.insert signalId
        lastSeq := e.seq }
    else { state with
      unconsumedByCorrelation := state.unconsumedByCorrelation.set correlationId
        ((state.unconsumedByCorrelation.get correlationId).getD [] ++
          [⟨signalId, payload, signalName⟩])
      observedSignalIds := state.observedSignalIds.insert signalId
      lastSeq := e.seq }

def receiveByName (state : RunState π) (e : WorkflowEvent π) (signalName signalId : String)
    (payload : π) : RunState π :=
  match state.steps.entries.find? fun entry => awaitsOn signalName none entry.2 with
  | some (id, step) => consumeAwaiter state e signalId id step
  | none => { state with
      unconsumedSignals := state.unconsumedSignals.set signalName
        ((state.unconsumedSignals.get signalName).getD [] ++ [⟨signalId, payload⟩])
      observedSignalIds := state.observedSignalIds.insert signalId
      lastSeq := e.seq }

def handleSignalReceived (state : RunState π) (e : WorkflowEvent π) (signalName signalId : String)
    (payload : π) (correlationId : Option String) : RunState π :=
  if signalId ∈ state.observedSignalIds.elements then { state with lastSeq := e.seq }
  else
    match correlationId with
    | some correlationId => receiveCorrelated state e signalName signalId payload correlationId
    | none => receiveByName state e signalName signalId payload

def handleSignalAwaitAbandoned (state : RunState π) (e : WorkflowEvent π)
    (stepId signalName : String) (correlationId : Option String) :
    Except (TransitionError π) (RunState π) := do
  let step ← requireStep state e stepId
  if step.phase ≠ .awaitingSignal then .ok { state with lastSeq := e.seq }
  else
    let mismatch := TransitionError.mk .stepPhase ("SignalAwaitAbandoned for step " ++ stepId ++
      " on " ++ signalName ++ " does not match an active signal-relay park") e
    match step.awaitingSignal with
    | none => .error mismatch
    | some awaiting =>
      if controlParkKindOf awaiting ≠ .signalRelay ∨ awaiting.name ≠ signalName ∨
          (correlationId ≠ none ∧ awaiting.correlationId ≠ correlationId) then
        .error mismatch
      else .ok { state with
        steps := state.steps.set stepId { step.withoutAwaiters with phase := .inFlight }
        lastSeq := e.seq }

def handleTimerSet (state : RunState π) (e : WorkflowEvent π) (timerId fireAt : String)
    (stepId : Option String) : RunState π :=
  let pendingTimers := state.pendingTimers.set timerId ⟨timerId, fireAt, stepId⟩
  match stepId.bind fun id => (state.steps.get id).map (id, ·) with
  | some (id, step) =>
    if step.phase = .inFlight then { state with
      steps := state.steps.set id
        { step with phase := .awaitingTimer, awaitingTimerId := some timerId }
      pendingTimers := pendingTimers
      lastSeq := e.seq }
    else { state with pendingTimers := pendingTimers, lastSeq := e.seq }
  | none => { state with pendingTimers := pendingTimers, lastSeq := e.seq }

def handleTimerFired (state : RunState π) (e : WorkflowEvent π) (timerId : String) : RunState π :=
  match state.pendingTimers.get timerId with
  | none => { state with lastSeq := e.seq }
  | some pending =>
    let pendingTimers := state.pendingTimers.keep (· ≠ timerId)
    match pending.stepId.bind fun id => (state.steps.get id).map (id, ·) with
    | some (id, step) =>
      if step.phase = .awaitingTimer ∨ step.phase = .awaitingSignal then { state with
        steps := state.steps.set id { step.withoutAwaiters with phase := .inFlight }
        pendingTimers := pendingTimers
        lastSeq := e.seq }
      else { state with pendingTimers := pendingTimers, lastSeq := e.seq }
    | none => { state with pendingTimers := pendingTimers, lastSeq := e.seq }

def handleCancelRequested (state : RunState π) (e : WorkflowEvent π) (reason origin : String) :
    Except (TransitionError π) (RunState π) :=
  if origin ∉ CANCEL_ORIGINS then
    .error ⟨.cancelOrigin, "CancelRequested unknown origin " ++ origin, e⟩
  else if state.phase = .cancelling then .ok { state with lastSeq := e.seq }
  else if state.phase ≠ .running ∧ state.phase ≠ .pending then
    .error ⟨.phase, "CancelRequested in phase " ++ state.phase.text, e⟩
  else .ok { state with
    phase := .cancelling
    cancelReason := some reason
    lastSeq := e.seq }

def handleCancelPropagated (state : RunState π) (e : WorkflowEvent π) (stepId : String) :
    Except (TransitionError π) (RunState π) :=
  if state.phase ≠ .cancelling then
    .error ⟨.phase, "CancelPropagated in phase " ++ state.phase.text, e⟩
  else
    match state.steps.get stepId with
    | none => .ok { state with lastSeq := e.seq }
    | some step =>
      if isTerminalStepPhase step.phase then .ok { state with lastSeq := e.seq }
      else .ok { state with
        steps := state.steps.set stepId { step.withoutAwaiters with phase := .cancelled }
        lastSeq := e.seq }

def handleChildSpawned (state : RunState π) (e : WorkflowEvent π) (stepId childRunId : String) :
    Except (TransitionError π) (RunState π) := do
  requireRunPhase state e .running
  if state.children.has childRunId then
    .error ⟨.childAlreadySpawned, "ChildSpawned for child " ++ childRunId ++
      " which already has state", e⟩
  else .ok { state with
    children := state.children.set childRunId
      { childRunId := childRunId, spawnedBy := stepId, cancelRequested := false,
        terminalStatus := none, abortedTeardown := false }
    lastSeq := e.seq }

def handleChildCancelRequested (state : RunState π) (e : WorkflowEvent π) (childRunId : String) :
    Except (TransitionError π) (RunState π) :=
  match state.children.get childRunId with
  | none => .error ⟨.unknownChild, "ChildCancelRequested for unknown child " ++ childRunId, e⟩
  | some child =>
    if child.cancelRequested then .ok { state with lastSeq := e.seq }
    else .ok { state with
      children := state.children.set childRunId { child with cancelRequested := true }
      lastSeq := e.seq }

def handleChildCompleted (state : RunState π) (e : WorkflowEvent π) (childRunId : String)
    (terminalStatus : TerminalStatus) (abortedTeardown : Bool) :
    Except (TransitionError π) (RunState π) :=
  match state.children.get childRunId with
  | none => .error ⟨.unknownChild, "ChildCompleted for unknown child " ++ childRunId, e⟩
  | some child =>
    if child.terminalStatus ≠ none then .ok { state with lastSeq := e.seq }
    else .ok { state with
      children := state.children.set childRunId
        { child with
          terminalStatus := some terminalStatus
          abortedTeardown := abortedTeardown || child.abortedTeardown }
      lastSeq := e.seq }

def handleRunCompleted (state : RunState π) (e : WorkflowEvent π) :
    Except (TransitionError π) (RunState π) := do
  requireRunPhase state e .running
  .ok { state with phase := .completed, lastSeq := e.seq }

def handleRunFailed (state : RunState π) (e : WorkflowEvent π) :
    Except (TransitionError π) (RunState π) :=
  if state.phase ≠ .running then
    .error ⟨.phase, "RunFailed in phase " ++ state.phase.text ++ "; cancellation wins", e⟩
  else .ok { state with phase := .failed, lastSeq := e.seq }

def handleRunCancelled (state : RunState π) (e : WorkflowEvent π) :
    Except (TransitionError π) (RunState π) :=
  if state.phase ≠ .cancelling then
    .error ⟨.phase, "RunCancelled in phase " ++ state.phase.text, e⟩
  else .ok { state with phase := .cancelled, lastSeq := e.seq }

def applyEvent (state : RunState π) (event : WorkflowEvent π) :
    Except (TransitionError π) (RunState π) :=
  if event.seq < 1 then .error ⟨.sequence, "sequence must be >= 1", event⟩
  else if event.seq ≤ state.lastSeq then
    .error ⟨.sequence, "non-monotonic sequence (last=" ++ toString state.lastSeq ++ ", this=" ++
      toString event.seq ++ ")", event⟩
  else if isTerminalRunPhase state.phase then
    .error ⟨.terminalPhase, "event after terminal phase " ++ state.phase.text, event⟩
  else
    match event.body with
    | .runStarted definitionHash consumedMessageId =>
      handleRunStarted state event definitionHash consumedMessageId
    | .stepStarted stepId attempt => handleStepStarted state event stepId attempt
    | .stepCompleted stepId outputRef => handleStepCompleted state event stepId outputRef
    | .stepFailed stepId error routedTo => handleStepFailed state event stepId error routedTo
    | .attemptScheduled stepId nextAttempt timerId =>
      handleAttemptScheduled state event stepId nextAttempt timerId
    | .signalAwaited stepId signalName timeoutAt parkKind correlationId =>
      handleSignalAwaited state event stepId ⟨signalName, timeoutAt, parkKind, correlationId⟩
    | .signalReceived signalName signalId payload correlationId =>
      .ok (handleSignalReceived state event signalName signalId payload correlationId)
    | .signalAwaitAbandoned stepId signalName correlationId =>
      handleSignalAwaitAbandoned state event stepId signalName correlationId
    | .timerSet timerId fireAt stepId => .ok (handleTimerSet state event timerId fireAt stepId)
    | .timerFired timerId => .ok (handleTimerFired state event timerId)
    | .cancelRequested reason origin => handleCancelRequested state event reason origin
    | .cancelPropagated stepId => handleCancelPropagated state event stepId
    | .childSpawned stepId childRunId => handleChildSpawned state event stepId childRunId
    | .childCancelRequested childRunId => handleChildCancelRequested state event childRunId
    | .childCompleted childRunId terminalStatus abortedTeardown =>
      handleChildCompleted state event childRunId terminalStatus abortedTeardown
    | .runCompleted => handleRunCompleted state event
    | .runFailed _ => handleRunFailed state event
    | .runCancelled => handleRunCancelled state event

def resumeFromLog (runId : String) (events : List (WorkflowEvent π)) :
    Except (TransitionError π) (RunState π) :=
  Replay.replay applyEvent (emptyState runId) events

/-- The log of a run with two signals, a retry and a child, that is stopped. -/
def sampleLog : List (WorkflowEvent String) :=
  [⟨1, "t1", .runStarted "h" (some "m1")⟩,
    ⟨2, "t2", .signalReceived "go" "s1" "one" none⟩,
    ⟨3, "t2", .signalReceived "go" "s2" "two" none⟩,
    ⟨4, "t3", .stepStarted "a" 1⟩,
    ⟨5, "t3", .signalAwaited "a" "go" none none none⟩,
    ⟨6, "t3", .stepFailed "a" ⟨"no", none⟩ none⟩,
    ⟨7, "t4", .timerSet "x" "t9" (some "a")⟩,
    ⟨8, "t4", .attemptScheduled "a" 2 "x"⟩,
    ⟨9, "t9", .timerFired "x"⟩,
    ⟨10, "t9", .childSpawned "a" "c"⟩,
    ⟨11, "t10", .cancelRequested "stop" "self"⟩,
    ⟨12, "t10", .childCancelRequested "c"⟩,
    ⟨13, "t11", .childCompleted "c" .cancelled true⟩,
    ⟨14, "t11", .cancelPropagated "a"⟩,
    ⟨15, "t12", .runCancelled⟩]

lemma exists_resume_sample : ∃ s, resumeFromLog "r" sampleLog = .ok s := ⟨_, rfl⟩

end Workbench.Workflow
