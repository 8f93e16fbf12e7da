import Workbench.Workflow.ApplyEvent

/-!
What an event that is taken does, one case for each way through the transition function.
-/

namespace Workbench.Workflow

open Workbench.Lib Workbench.Lib.Replay

variable {π : Type} {s t : RunState π} {e : WorkflowEvent π} {body : EventBody π}

/-- The signal that is queued for an await, if one is. -/
def queuedFor (s : RunState π) (awaiting : AwaitingSignal) : Option (QueuedSignal π) :=
  match awaiting.correlationId with
  | none => ((s.unconsumedSignals.get awaiting.name).getD []).head?
  | some correlationId =>
    (((s.unconsumedByCorrelation.get correlationId).getD []).find? fun queued =>
      queued.signalName = awaiting.name).map fun queued => ⟨queued.id, queued.payload⟩

/-- The queues without the signal that is queued for an await. -/
def takeQueued (s : RunState π) (awaiting : AwaitingSignal) : RunState π :=
  match awaiting.correlationId with
  | none => { s with
      unconsumedSignals := setQueue s.unconsumedSignals awaiting.name
        ((s.unconsumedSignals.get awaiting.name).getD []).tail }
  | some correlationId => { s with
      unconsumedByCorrelation := setQueue s.unconsumedByCorrelation correlationId
        (((s.unconsumedByCorrelation.get correlationId).getD []).eraseP fun queued =>
          queued.signalName = awaiting.name) }

/-- The first step that waits for a delivery. -/
def awaiterOf (s : RunState π) (signalName : String) (correlationId : Option String) :
    Option (String × StepState) :=
  s.steps.entries.find? fun entry => awaitsOn signalName correlationId entry.2

/-- Some step is parked under the id. -/
def held (s : RunState π) (correlationId : String) : Bool :=
  s.steps.entries.any fun entry => holdsCorrelation correlationId entry.2

def StepState.inFlight (step : StepState) : StepState :=
  { step.withoutAwaiters with phase := .inFlight }

@[grind →] lemma get_of_awaiterOf {signalName : String} {correlationId : Option String}
    {stepId : String} {step : StepState}
    (h : awaiterOf s signalName correlationId = some (stepId, step)) :
    s.steps.get stepId = some step ∧ awaitsOn signalName correlationId step := by
  constructor
  · exact OrderedMap.get_eq_some.2 (List.mem_of_find?_eq_some h)
  · have hawaits := List.find?_some h
    exact hawaits

/-- The state after an event that is taken. -/
inductive Takes (s : RunState π) (seq : ℤ) : EventBody π → RunState π → Prop
  | runStarted {definitionHash consumedMessageId} (pending : s.phase = .pending)
      (fresh : ∀ id ∈ consumedMessageId, id ∉ s.consumedMessageIds.elements) :
      Takes s seq (.runStarted definitionHash consumedMessageId)
        { s with
          phase := .running
          definitionHash := some definitionHash
          consumedMessageIds :=
            consumedMessageId.elim s.consumedMessageIds s.consumedMessageIds.insert
          lastSeq := seq }
  | stepStarted {stepId attempt} (running : s.phase = .running) (new : s.steps.get stepId = none) :
      Takes s seq (.stepStarted stepId attempt)
        { s with
          steps := s.steps.set stepId ⟨stepId, .inFlight, attempt, none, none, none, none⟩
          lastSeq := seq }
  | stepCompleted {stepId outputRef step} (get : s.steps.get stepId = some step)
      (unsettled : isTerminalStepPhase step.phase = false) :
      Takes s seq (.stepCompleted stepId outputRef)
        { s with
          steps := s.steps.set stepId
            { step.withoutAwaiters with phase := .completed, outputRef := some outputRef }
          lastSeq := seq }
  | stepFailed {stepId error routedTo step} (get : s.steps.get stepId = some step)
      (unsettled : isTerminalStepPhase step.phase = false) :
      Takes s seq (.stepFailed stepId error routedTo)
        { s with
          steps := s.steps.set stepId
            { step.withoutAwaiters with
              phase := if routedTo ≠ none then .routed else .failed
              lastError := some error }
          lastSeq := seq }
  | attemptScheduled {stepId nextAttempt timerId step timer}
      (get : s.steps.get stepId = some step)
      (retryable : ¬ (step.phase = .completed ∨ step.phase = .routed ∨ step.phase = .cancelled))
      (later : step.currentAttempt < nextAttempt)
      (pending : s.pendingTimers.get timerId = some timer) (bound : timer.stepId = some stepId) :
      Takes s seq (.attemptScheduled stepId nextAttempt timerId)
        { s with
          steps := s.steps.set stepId
            { step with
              currentAttempt := nextAttempt
              phase := .awaitingTimer
              awaitingTimerId := some timerId }
          lastSeq := seq }
  | awaitedQueued {stepId signalName timeoutAt parkKind correlationId step queued}
      (get : s.steps.get stepId = some step)
      (found : queuedFor s ⟨signalName, timeoutAt, parkKind, correlationId⟩ = some queued) :
      Takes s seq (.signalAwaited stepId signalName timeoutAt parkKind correlationId)
        { takeQueued s ⟨signalName, timeoutAt, parkKind, correlationId⟩ with
          steps := s.steps.set stepId step.inFlight
          lastSeq := seq }
  | awaited {stepId signalName timeoutAt parkKind correlationId step}
      (get : s.steps.get stepId = some step)
      (empty : queuedFor s ⟨signalName, timeoutAt, parkKind, correlationId⟩ = none) :
      Takes s seq (.signalAwaited stepId signalName timeoutAt parkKind correlationId)
        { s with
          steps := s.steps.set stepId
            { step with
              phase := .awaitingSignal
              awaitingSignal := some ⟨signalName, timeoutAt, parkKind, correlationId⟩ }
          lastSeq := seq }
  | duplicate {signalName signalId payload correlationId}
      (seen : signalId ∈ s.observedSignalIds.elements) :
      Takes s seq (.signalReceived signalName signalId payload correlationId)
        { s with lastSeq := seq }
  | delivered {signalName signalId payload correlationId stepId step}
      (new : signalId ∉ s.observedSignalIds.elements)
      (found : awaiterOf s signalName correlationId = some (stepId, step)) :
      Takes s seq (.signalReceived signalName signalId payload correlationId)
        { s with
          steps := s.steps.set stepId step.inFlight
          observedSignalIds := s.observedSignalIds.insert signalId
          lastSeq := seq }
  | dropped {signalName signalId payload correlationId}
      (new : signalId ∉ s.observedSignalIds.elements)
      (unawaited : awaiterOf s signalName (some correlationId) = none)
      (holds : held s correlationId) :
      Takes s seq (.signalReceived signalName signalId payload (some correlationId))
        { s with
          observedSignalIds := s.observedSignalIds.insert signalId
          lastSeq := seq }
  | queuedByCorrelation {signalName signalId payload correlationId}
      (new : signalId ∉ s.observedSignalIds.elements)
      (unawaited : awaiterOf s signalName (some correlationId) = none)
      (free : held s correlationId = false) :
      Takes s seq (.signalReceived signalName signalId payload (some correlationId))
        { s with
          unconsumedByCorrelation := s.unconsumedByCorrelation.set correlationId
            ((s.unconsumedByCorrelation.get correlationId).getD [] ++
              [⟨signalId, payload, signalName⟩])
          observedSignalIds := s.observedSignalIds.insert signalId
          lastSeq := seq }
  | queuedByName {signalName signalId payload} (new : signalId ∉ s.observedSignalIds.elements)
      (unawaited : awaiterOf s signalName none = none) :
      Takes s seq (.signalReceived signalName signalId payload none)
        { s with
          unconsumedSignals := s.unconsumedSignals.set signalName
            ((s.unconsumedSignals.get signalName).getD [] ++ [⟨signalId, payload⟩])
          observedSignalIds := s.observedSignalIds.insert signalId
          lastSeq := seq }
  | abandonLost {stepId signalName correlationId step} (get : s.steps.get stepId = some step)
      (gone : step.phase ≠ .awaitingSignal) :
      Takes s seq (.signalAwaitAbandoned stepId signalName correlationId) { s with lastSeq := seq }
  | abandoned {stepId signalName correlationId step awaiting}
      (get : s.steps.get stepId = some step) (parked : step.phase = .awaitingSignal)
      (awaits : step.awaitingSignal = some awaiting)
      (relay : controlParkKindOf awaiting = .signalRelay) (name : awaiting.name = signalName)
      (matching : correlationId ≠ none → awaiting.correlationId = correlationId) :
      Takes s seq (.signalAwaitAbandoned stepId signalName correlationId)
        { s with steps := s.steps.set stepId step.inFlight, lastSeq := seq }
  | timerSet {timerId fireAt stepId}
      (still : ∀ id ∈ stepId, ∀ step ∈ s.steps.get id, step.phase ≠ .inFlight) :
      Takes s seq (.timerSet timerId fireAt stepId)
        { s with
          pendingTimers := s.pendingTimers.set timerId ⟨timerId, fireAt, stepId⟩
          lastSeq := seq }
  | timerSetParks {timerId fireAt stepId step} (get : s.steps.get stepId = some step)
      (inFlight : step.phase = .inFlight) :
      Takes s seq (.timerSet timerId fireAt (some stepId))
        { s with
          steps := s.steps.set stepId
            { step with phase := .awaitingTimer, awaitingTimerId := some timerId }
          pendingTimers := s.pendingTimers.set timerId ⟨timerId, fireAt, some stepId⟩
          lastSeq := seq }
  | timerGone {timerId} (unknown : s.pendingTimers.get timerId = none) :
      Takes s seq (.timerFired timerId) { s with lastSeq := seq }
  | timerFired {timerId timer} (pending : s.pendingTimers.get timerId = some timer)
      (still : ∀ id ∈ timer.stepId, ∀ step ∈ s.steps.get id,
        step.phase ≠ .awaitingTimer ∧ step.phase ≠ .awaitingSignal) :
      Takes s seq (.timerFired timerId)
        { s with pendingTimers := s.pendingTimers.keep (· ≠ timerId), lastSeq := seq }
  | timerWakes {timerId timer stepId step} (pending : s.pendingTimers.get timerId = some timer)
      (bound : timer.stepId = some stepId) (get : s.steps.get stepId = some step)
      (parked : step.phase = .awaitingTimer ∨ step.phase = .awaitingSignal) :
      Takes s seq (.timerFired timerId)
        { s with
          steps := s.steps.set stepId step.inFlight
          pendingTimers := s.pendingTimers.keep (· ≠ timerId)
          lastSeq := seq }
  | cancelRequestedAgain {reason origin} (known : origin ∈ CANCEL_ORIGINS)
      (cancelling : s.phase = .cancelling) :
      Takes s seq (.cancelRequested reason origin) { s with lastSeq := seq }
  | cancelRequested {reason origin} (known : origin ∈ CANCEL_ORIGINS)
      (live : s.phase = .running ∨ s.phase = .pending) :
      Takes s seq (.cancelRequested reason origin)
        { s with phase := .cancelling, cancelReason := some reason, lastSeq := seq }
  | cancelMissed {stepId} (cancelling : s.phase = .cancelling)
      (settled : ∀ step ∈ s.steps.get stepId, isTerminalStepPhase step.phase) :
      Takes s seq (.cancelPropagated stepId) { s with lastSeq := seq }
  | cancelPropagated {stepId step} (cancelling : s.phase = .cancelling)
      (get : s.steps.get stepId = some step)
      (unsettled : isTerminalStepPhase step.phase = false) :
      Takes s seq (.cancelPropagated stepId)
        { s with
          steps := s.steps.set stepId { step.withoutAwaiters with phase := .cancelled }
          lastSeq := seq }
  | childSpawned {stepId childRunId} (running : s.phase = .running)
      (new : s.children.get childRunId = none) :
      Takes s seq (.childSpawned stepId childRunId)
        { s with
          children := s.children.set childRunId ⟨childRunId, stepId, false, none, false⟩
          lastSeq := seq }
  | childCancelRequestedAgain {childRunId child} (get : s.children.get childRunId = some child)
      (requested : child.cancelRequested) :
      Takes s seq (.childCancelRequested childRunId) { s with lastSeq := seq }
  | childCancelRequested {childRunId child} (get : s.children.get childRunId = some child)
      (unrequested : child.cancelRequested = false) :
      Takes s seq (.childCancelRequested childRunId)
        { s with
          children := s.children.set childRunId { child with cancelRequested := true }
          lastSeq := seq }
  | childCompletedAgain {childRunId terminalStatus abortedTeardown child}
      (get : s.children.get childRunId = some child) (ended : child.terminalStatus ≠ none) :
      Takes s seq (.childCompleted childRunId terminalStatus abortedTeardown)
        { s with lastSeq := seq }
  | childCompleted {childRunId terminalStatus abortedTeardown child}
      (get : s.children.get childRunId = some child) (live : child.terminalStatus = none) :
      Takes s seq (.childCompleted childRunId terminalStatus abortedTeardown)
        { s with
          children := s.children.set childRunId
            { child with
              terminalStatus := some terminalStatus
              abortedTeardown := abortedTeardown || child.abortedTeardown }
          lastSeq := seq }
  | runCompleted (running : s.phase = .running) :
      Takes s seq .runCompleted { s with phase := .completed, lastSeq := seq }
  | runFailed {message} (running : s.phase = .running) :
      Takes s seq (.runFailed message) { s with phase := .failed, lastSeq := seq }
  | runCancelled (cancelling : s.phase = .cancelling) :
      Takes s seq .runCancelled { s with phase := .cancelled, lastSeq := seq }

/-! ### The handlers -/

lemma requireRunPhase_ok {expected : RunPhase} {r : Except (TransitionError π) (RunState π)} :
    (requireRunPhase s e expected >>= fun _ => r) = .ok t ↔ s.phase = expected ∧ r = .ok t := by
  unfold requireRunPhase
  split_ifs with h
  · simp only [bind, Except.bind, reduceCtorEq, false_iff, not_and]
    exact fun hp => absurd hp h
  · simp only [bind, Except.bind, iff_and_self]
    exact fun _ => not_not.mp h

lemma requireStep_ok {stepId : String} {f : StepState → Except (TransitionError π) (RunState π)} :
    (requireStep s e stepId >>= f) = .ok t ↔
      ∃ step, s.steps.get stepId = some step ∧ f step = .ok t := by
  unfold requireStep
  cases s.steps.get stepId <;> simp [bind, Except.bind]

lemma get_eq_none_of_not_has {ν : Type} {m : OrderedMap String ν} {k : String}
    (h : ¬ m.has k) : m.get k = none := by
  simpa [OrderedMap.has] using h

lemma takes_signalAwaited {stepId signalName : String} {timeoutAt : Option String}
    {parkKind : Option ControlParkKind} {correlationId : Option String}
    (h : handleSignalAwaited s e stepId ⟨signalName, timeoutAt, parkKind, correlationId⟩ =
      .ok t) :
    Takes s e.seq (.signalAwaited stepId signalName timeoutAt parkKind correlationId) t := by
  obtain ⟨step, hget, h⟩ := requireStep_ok.1 h
  cases correlationId with
  | none =>
    cases hqueue : (s.unconsumedSignals.get signalName).getD [] with
    | nil =>
      simp only [hqueue] at h
      cases h
      exact .awaited hget (by simp [queuedFor, hqueue])
    | cons queued remaining =>
      simp only [hqueue] at h
      cases h
      have hremaining : remaining = ((s.unconsumedSignals.get signalName).getD []).tail := by
        rw [hqueue, List.tail_cons]
      rw [hremaining]
      exact .awaitedQueued hget (by rw [queuedFor, hqueue, List.head?_cons])
  | some correlationId =>
    simp only [awaitCorrelated] at h
    cases hfind : ((s.unconsumedByCorrelation.get correlationId).getD []).find?
        (·.signalName = signalName) with
    | none =>
      rw [hfind] at h
      cases h
      exact .awaited hget (by simp [queuedFor, hfind])
    | some queued =>
      rw [hfind] at h
      cases h
      refine @Takes.awaitedQueued π s e.seq _ _ _ _ _ _ ⟨queued.id, queued.payload⟩ hget ?_
      simp [queuedFor, hfind]

lemma takes_signalReceived {signalName signalId : String} {payload : π}
    {correlationId : Option String} :
    Takes s e.seq (.signalReceived signalName signalId payload correlationId)
      (handleSignalReceived s e signalName signalId payload correlationId) := by
  unfold handleSignalReceived
  split_ifs with hseen
  · exact .duplicate hseen
  · cases correlationId with
    | none =>
      simp only [receiveByName]
      cases hfind : s.steps.entries.find? fun entry => awaitsOn signalName none entry.2 with
      | none => exact .queuedByName hseen hfind
      | some entry => exact .delivered hseen hfind
    | some correlationId =>
      simp only [receiveCorrelated]
      cases hfind : s.steps.entries.find? fun entry =>
          awaitsOn signalName (some correlationId) entry.2 with
      | some entry => exact .delivered hseen hfind
      | none =>
        cases hheld : s.steps.entries.any fun entry => holdsCorrelation correlationId entry.2 with
        | true => exact .dropped hseen hfind hheld
        | false => exact .queuedByCorrelation hseen hfind hheld

lemma takes_timerSet {timerId fireAt : String} {stepId : Option String} :
    Takes s e.seq (.timerSet timerId fireAt stepId)
      (handleTimerSet s e timerId fireAt stepId) := by
  unfold handleTimerSet
  cases stepId with
  | none => exact .timerSet (by simp)
  | some id =>
    cases hget : s.steps.get id with
    | none =>
      simp only [Option.bind_some, hget, Option.map_none]
      exact .timerSet (by simp [hget])
    | some step =>
      simp only [Option.bind_some, hget, Option.map_some]
      split_ifs with hphase
      · exact .timerSetParks hget hphase
      · exact .timerSet (by simp [hget, hphase])

lemma takes_timerFired {timerId : String} :
    Takes s e.seq (.timerFired timerId) (handleTimerFired s e timerId) := by
  unfold handleTimerFired
  cases hpending : s.pendingTimers.get timerId with
  | none => exact .timerGone hpending
  | some timer =>
    cases hbound : timer.stepId with
    | none =>
      simp only [hbound, Option.bind_none]
      exact .timerFired hpending (by simp [hbound])
    | some id =>
      cases hget : s.steps.get id with
      | none =>
        simp only [hbound, Option.bind_some, hget, Option.map_none]
        exact .timerFired hpending (by simp [hbound, hget])
      | some step =>
        simp only [hbound, Option.bind_some, hget, Option.map_some]
        split_ifs with hphase
        · exact .timerWakes hpending hbound hget hphase
        · exact .timerFired hpending (by simpa [hbound, hget] using hphase)

lemma takes_runStarted {definitionHash : String} {consumedMessageId : Option String}
    (h : handleRunStarted s e definitionHash consumedMessageId = .ok t) :
    Takes s e.seq (.runStarted definitionHash consumedMessageId) t := by
  unfold handleRunStarted at h
  split_ifs at h with hphase
  have hpending := not_not.mp hphase
  cases consumedMessageId with
  | none =>
    cases h
    exact .runStarted hpending (by simp)
  | some id =>
    simp only at h
    split_ifs at h with hmem
    cases h
    exact .runStarted hpending (by simpa using hmem)

lemma takes_attemptScheduled {stepId timerId : String} {nextAttempt : ℤ}
    (h : handleAttemptScheduled s e stepId nextAttempt timerId = .ok t) :
    Takes s e.seq (.attemptScheduled stepId nextAttempt timerId) t := by
  obtain ⟨step, hget, h⟩ := requireStep_ok.1 h
  split_ifs at h with hphase hattempt
  cases htimer : s.pendingTimers.get timerId with
  | none =>
    rw [htimer] at h
    cases h
  | some timer =>
    simp only [htimer] at h
    split_ifs at h with hbound
    cases h
    exact .attemptScheduled hget hphase (Int.not_le.mp hattempt) htimer (not_not.mp hbound)

lemma takes_signalAwaitAbandoned {stepId signalName : String} {correlationId : Option String}
    (h : handleSignalAwaitAbandoned s e stepId signalName correlationId = .ok t) :
    Takes s e.seq (.signalAwaitAbandoned stepId signalName correlationId) t := by
  obtain ⟨step, hget, h⟩ := requireStep_ok.1 h
  simp only at h
  split_ifs at h with hphase
  · cases h
    exact .abandonLost hget hphase
  · cases hawaits : step.awaitingSignal with
    | none =>
      rw [hawaits] at h
      cases h
    | some awaiting =>
      simp only [hawaits] at h
      split_ifs at h with hmatch
      cases h
      simp only [not_or, not_and, not_not] at hmatch
      obtain ⟨hrelay, hname, hcorrelation⟩ := hmatch
      exact .abandoned hget (not_not.mp hphase) hawaits hrelay hname hcorrelation

lemma takes_cancelRequested {reason origin : String}
    (h : handleCancelRequested s e reason origin = .ok t) :
    Takes s e.seq (.cancelRequested reason origin) t := by
  unfold handleCancelRequested at h
  split_ifs at h with hknown hcancelling hlive
  · cases h
    exact .cancelRequestedAgain hknown hcancelling
  · cases h
    refine .cancelRequested hknown ?_
    tauto

lemma takes_cancelPropagated {stepId : String} (h : handleCancelPropagated s e stepId = .ok t) :
    Takes s e.seq (.cancelPropagated stepId) t := by
  unfold handleCancelPropagated at h
  split_ifs at h with hphase
  have hcancelling := not_not.mp hphase
  cases hget : s.steps.get stepId with
  | none =>
    simp only [hget] at h
    cases h
    exact .cancelMissed hcancelling (by simp [hget])
  | some step =>
    simp only [hget] at h
    split_ifs at h with hsettled
    · cases h
      exact .cancelMissed hcancelling (by simpa [hget] using hsettled)
    · cases h
      exact .cancelPropagated hcancelling hget (by simpa using hsettled)

lemma takes_childCancelRequested {childRunId : String}
    (h : handleChildCancelRequested s e childRunId = .ok t) :
    Takes s e.seq (.childCancelRequested childRunId) t := by
  unfold handleChildCancelRequested at h
  cases hget : s.children.get childRunId with
  | none =>
    rw [hget] at h
    cases h
  | some child =>
    simp only [hget] at h
    split_ifs at h with hrequested
    · cases h
      exact .childCancelRequestedAgain hget hrequested
    · cases h
      exact .childCancelRequested hget (by simpa using hrequested)

lemma takes_childCompleted {childRunId : String} {terminalStatus : TerminalStatus}
    {abortedTeardown : Bool}
    (h : handleChildCompleted s e childRunId terminalStatus abortedTeardown = .ok t) :
    Takes s e.seq (.childCompleted childRunId terminalStatus abortedTeardown) t := by
  unfold handleChildCompleted at h
  cases hget : s.children.get childRunId with
  | none =>
    rw [hget] at h
    cases h
  | some child =>
    simp only [hget] at h
    split_ifs at h with hended
    · cases h
      exact .childCompletedAgain hget hended
    · cases h
      exact .childCompleted hget (not_not.mp hended)

lemma takes_of_handled (h : applyEvent s e = .ok t) : Takes s e.seq e.body t := by
  obtain ⟨seq, committedAt, body⟩ := e
  unfold applyEvent at h
  split_ifs at h with hfirst hlater hterminal
  cases body with
  | runStarted => exact takes_runStarted h
  | stepStarted =>
    obtain ⟨hrunning, h⟩ := requireRunPhase_ok.1 h
    split_ifs at h with hnew
    cases h
    exact .stepStarted hrunning (get_eq_none_of_not_has hnew)
  | stepCompleted =>
    obtain ⟨step, hget, h⟩ := requireStep_ok.1 h
    simp only at h
    split_ifs at h with hsettled
    cases h
    exact .stepCompleted hget (by simpa using hsettled)
  | stepFailed =>
    obtain ⟨step, hget, h⟩ := requireStep_ok.1 h
    cases hsettled : isTerminalStepPhase step.phase with
    | true =>
      rw [if_pos hsettled] at h
      cases h
    | false =>
      rw [if_neg (by simp [hsettled])] at h
      cases h
      exact .stepFailed hget hsettled
  | attemptScheduled => exact takes_attemptScheduled h
  | signalAwaited => exact takes_signalAwaited h
  | signalReceived =>
    cases h
    exact takes_signalReceived (e := ⟨seq, committedAt, _⟩)
  | signalAwaitAbandoned => exact takes_signalAwaitAbandoned h
  | timerSet =>
    cases h
    exact takes_timerSet (e := ⟨seq, committedAt, _⟩)
  | timerFired =>
    cases h
    exact takes_timerFired (e := ⟨seq, committedAt, _⟩)
  | cancelRequested => exact takes_cancelRequested h
  | cancelPropagated => exact takes_cancelPropagated h
  | childSpawned =>
    obtain ⟨hrunning, h⟩ := requireRunPhase_ok.1 h
    split_ifs at h with hnew
    cases h
    exact .childSpawned hrunning (get_eq_none_of_not_has hnew)
  | childCancelRequested => exact takes_childCancelRequested h
  | childCompleted => exact takes_childCompleted h
  | runCompleted =>
    obtain ⟨hrunning, h⟩ := requireRunPhase_ok.1 h
    cases h
    exact .runCompleted hrunning
  | runFailed =>
    simp only [handleRunFailed] at h
    split_ifs at h with hphase
    cases h
    exact .runFailed (not_not.mp hphase)
  | runCancelled =>
    simp only [handleRunCancelled] at h
    split_ifs at h with hphase
    cases h
    exact .runCancelled (not_not.mp hphase)

/-- An event that is taken comes behind those before it, and none of them ended the run. -/
structure Taken (s : RunState π) (e : WorkflowEvent π) (t : RunState π) : Prop where
  positive : 1 ≤ e.seq
  later : s.lastSeq < e.seq
  live : isTerminalRunPhase s.phase = false
  takes : Takes s e.seq e.body t

/-- **What the transition function does**, where it does not refuse the event. -/
theorem taken_of_applyEvent (h : applyEvent s e = .ok t) : Taken s e t := by
  have htakes := takes_of_handled h
  unfold applyEvent at h
  split_ifs at h with hfirst hlater hterminal
  exact ⟨Int.not_lt.mp hfirst, Int.not_le.mp hlater, by simpa using hterminal, htakes⟩

/-- The rule of histories for the log of a run. -/
theorem resume_history {runId : String} {log : List (WorkflowEvent π)}
    {I : List (WorkflowEvent π) → RunState π → Prop} (h : resumeFromLog runId log = .ok s)
    (h0 : I [] (emptyState runId))
    (hstep : ∀ log e s t, resumeFromLog runId log = .ok s → applyEvent s e = .ok t →
      Taken s e t → I log s → I (log ++ [e]) t) : I log s :=
  history h0 (fun log e t u ht hI hu => hstep log e t u ht hu (taken_of_applyEvent hu) hI) h

lemma Takes.lastSeq {seq : ℤ} (h : Takes s seq body t) : t.lastSeq = seq := by
  cases h <;> rfl

end Workbench.Workflow
