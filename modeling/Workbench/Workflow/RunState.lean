import Workbench.Lib.OrderedMap
import Workbench.Lib.OrderedSet

/-!
The events in the log of a workflow run, and the state they are reduced to.

Ids, names and times are texts as they stand in the log; the payload of a signal is of any type.
Of an event only what the reducer reads is kept.
-/

namespace Workbench.Workflow

open Workbench.Lib

inductive RunPhase
  | pending
  | running
  | cancelling
  | completed
  | failed
  | cancelled
  deriving DecidableEq, Repr

def RunPhase.text : RunPhase → String
  | pending => "pending"
  | running => "running"
  | cancelling => "cancelling"
  | completed => "completed"
  | failed => "failed"
  | cancelled => "cancelled"

inductive StepPhase
  | inFlight
  | awaitingSignal
  | awaitingTimer
  | completed
  | failed
  | routed
  | cancelled
  deriving DecidableEq, Repr

def StepPhase.text : StepPhase → String
  | inFlight => "in-flight"
  | awaitingSignal => "awaiting-signal"
  | awaitingTimer => "awaiting-timer"
  | completed => "completed"
  | failed => "failed"
  | routed => "routed"
  | cancelled => "cancelled"

inductive ControlParkKind
  | approval
  | input
  | signalRelay
  deriving DecidableEq, Repr

inductive TerminalStatus
  | completed
  | failed
  | cancelled
  deriving DecidableEq, Repr

structure StepError where
  message : String
  code : Option String
  deriving DecidableEq, Repr

def CANCEL_ORIGINS : List String :=
  ["self", "supervisor-drain", "supervisor-operator", "hub-admin"]

inductive EventBody (π : Type)
  | runStarted (definitionHash : String) (consumedMessageId : Option String)
  | stepStarted (stepId : String) (attempt : ℤ)
  | stepCompleted (stepId outputRef : String)
  | stepFailed (stepId : String) (error : StepError) (routedTo : Option String)
  | attemptScheduled (stepId : String) (nextAttempt : ℤ) (timerId : String)
  | signalAwaited (stepId signalName : String) (timeoutAt : Option String)
      (parkKind : Option ControlParkKind) (correlationId : Option String)
  | signalReceived (signalName signalId : String) (payload : π) (correlationId : Option String)
  | signalAwaitAbandoned (stepId signalName : String) (correlationId : Option String)
  | timerSet (timerId fireAt : String) (stepId : Option String)
  | timerFired (timerId : String)
  | cancelRequested (reason origin : String)
  | cancelPropagated (stepId : String)
  | childSpawned (stepId childRunId : String)
  | childCancelRequested (childRunId : String)
  | childCompleted (childRunId : String) (terminalStatus : TerminalStatus) (abortedTeardown : Bool)
  | runCompleted
  | runFailed (message : String)
  | runCancelled
  deriving DecidableEq, Repr

def EventBody.kind {π : Type} : EventBody π → String
  | runStarted .. => "RunStarted"
  | stepStarted .. => "StepStarted"
  | stepCompleted .. => "StepCompleted"
  | stepFailed .. => "StepFailed"
  | attemptScheduled .. => "AttemptScheduled"
  | signalAwaited .. => "SignalAwaited"
  | signalReceived .. => "SignalReceived"
  | signalAwaitAbandoned .. => "SignalAwaitAbandoned"
  | timerSet .. => "TimerSet"
  | timerFired .. => "TimerFired"
  | cancelRequested .. => "CancelRequested"
  | cancelPropagated .. => "CancelPropagated"
  | childSpawned .. => "ChildSpawned"
  | childCancelRequested .. => "ChildCancelRequested"
  | childCompleted .. => "ChildCompleted"
  | runCompleted => "RunCompleted"
  | runFailed .. => "RunFailed"
  | runCancelled => "RunCancelled"

/-- An event of the log, with the number and the time of its commit. -/
structure WorkflowEvent (π : Type) where
  seq : ℤ
  committedAt : String
  body : EventBody π
  deriving DecidableEq, Repr

structure AwaitingSignal where
  name : String
  timeoutAt : Option String
  parkKind : Option ControlParkKind
  correlationId : Option String
  deriving DecidableEq, Repr

structure StepState where
  stepId : String
  phase : StepPhase
  currentAttempt : ℤ
  outputRef : Option String
  lastError : Option StepError
  awaitingSignal : Option AwaitingSignal
  awaitingTimerId : Option String
  deriving DecidableEq, Repr

/-- A park whose kind was not recorded is read as an approval. -/
def controlParkKindOf (awaitingSignal : AwaitingSignal) : ControlParkKind :=
  match awaitingSignal.parkKind with
  | some .input => .input
  | some .signalRelay => .signalRelay
  | _ => .approval

structure ChildState where
  childRunId : String
  spawnedBy : String
  cancelRequested : Bool
  terminalStatus : Option TerminalStatus
  abortedTeardown : Bool
  deriving DecidableEq, Repr

structure PendingTimer where
  timerId : String
  fireAt : String
  stepId : Option String
  deriving DecidableEq, Repr

structure QueuedSignal (π : Type) where
  id : String
  payload : π
  deriving DecidableEq, Repr

structure CorrelatedQueuedSignal (π : Type) where
  id : String
  payload : π
  signalName : String
  deriving DecidableEq, Repr

structure RunState (π : Type) where
  runId : String
  phase : RunPhase
  definitionHash : Option String
  lastSeq : ℤ
  steps : OrderedMap String StepState
  children : OrderedMap String ChildState
  pendingTimers : OrderedMap String PendingTimer
  observedSignalIds : OrderedSet String
  unconsumedSignals : OrderedMap String (List (QueuedSignal π))
  unconsumedByCorrelation : OrderedMap String (List (CorrelatedQueuedSignal π))
  consumedMessageIds : OrderedSet String
  cancelReason : Option String

def emptyState {π : Type} (runId : String) : RunState π where
  runId := runId
  phase := .pending
  definitionHash := none
  lastSeq := 0
  steps := .empty
  children := .empty
  pendingTimers := .empty
  observedSignalIds := .empty
  unconsumedSignals := .empty
  unconsumedByCorrelation := .empty
  consumedMessageIds := .empty
  cancelReason := none

def isTerminalRunPhase (phase : RunPhase) : Bool :=
  phase = .completed || phase = .failed || phase = .cancelled

def isTerminalStepPhase (phase : StepPhase) : Bool :=
  phase = .completed || phase = .failed || phase = .routed || phase = .cancelled

def StepState.withoutAwaiters (step : StepState) : StepState :=
  { step with awaitingSignal := none, awaitingTimerId := none }

end Workbench.Workflow
