import Mathlib.Data.List.Pairwise
import Workbench.Workflow.Takes

/-!
The steps of a run, read off its log.

A step is started once, and its attempts count up. What it put out last, and the error it last had,
are those of the log. A step that is settled stays as it is, as long as no await is recorded for it:
the transition function does not refuse an await of a settled step, which then waits again.
-/

namespace Workbench.Workflow

open Workbench.Lib Workbench.Lib.Replay

variable {π : Type} {runId stepId : String} {log more : List (WorkflowEvent π)}
  {s t : RunState π} {e : WorkflowEvent π} {body : EventBody π} {seq : ℤ} {step : StepState}

/-- The step that is started. -/
def EventBody.startedStep : EventBody π → Option String
  | stepStarted stepId _ => some stepId
  | _ => none

/-- The attempt of the step that begins, or is scheduled. -/
def EventBody.attempt (stepId : String) : EventBody π → Option ℤ
  | stepStarted id attempt => if id = stepId then some attempt else none
  | attemptScheduled id nextAttempt _ => if id = stepId then some nextAttempt else none
  | _ => none

def EventBody.output (stepId : String) : EventBody π → Option String
  | stepCompleted id outputRef => if id = stepId then some outputRef else none
  | _ => none

def EventBody.error (stepId : String) : EventBody π → Option StepError
  | stepFailed id error _ => if id = stepId then some error else none
  | _ => none

def EventBody.awaits (stepId : String) : EventBody π → Bool
  | signalAwaited id .. => id = stepId
  | _ => false

def EventBody.retries (stepId : String) : EventBody π → Bool
  | attemptScheduled id .. => id = stepId
  | _ => false

/-- What the entries of a log say one after the other. -/
def readings {α : Type} (read : EventBody π → Option α) (log : List (WorkflowEvent π)) : List α :=
  log.filterMap fun e => read e.body

/-- The steps of the state are those of the log. -/
structure StepsRead (log : List (WorkflowEvent π)) (s : RunState π) : Prop where
  /-- in the order they were started in, and each was started once -/
  keys : s.steps.keys = readings EventBody.startedStep log
  named : ∀ stepId step, s.steps.get stepId = some step → step.stepId = stepId
  attempt : ∀ stepId, (s.steps.get stepId).map StepState.currentAttempt =
    (readings (EventBody.attempt stepId) log).getLast?
  increasing : ∀ stepId, (readings (EventBody.attempt stepId) log).Pairwise (· < ·)
  output : ∀ stepId, (s.steps.get stepId).bind StepState.outputRef =
    (readings (EventBody.output stepId) log).getLast?
  error : ∀ stepId, (s.steps.get stepId).bind StepState.lastError =
    (readings (EventBody.error stepId) log).getLast?

lemma readings_concat {α : Type} {read : EventBody π → Option α} :
    readings read (log ++ [e]) = readings read log ++ (read e.body).toList := by
  rw [readings, List.filterMap_append, ← readings]
  cases hread : read e.body <;> simp [hread]

lemma getLast?_readings_concat {α : Type} {read : EventBody π → Option α} :
    (readings read (log ++ [e])).getLast? = (read e.body <|> (readings read log).getLast?) := by
  rw [readings_concat]
  cases read e.body <;> simp

/-! ### One event -/

@[simp] lemma steps_takeQueued {awaiting : AwaitingSignal} :
    (takeQueued s awaiting).steps = s.steps := by
  unfold takeQueued
  split <;> rfl

lemma attempt_of_takes (h : Takes s seq body t) :
    (t.steps.get stepId).map StepState.currentAttempt =
      (body.attempt stepId <|> (s.steps.get stepId).map StepState.currentAttempt) := by
  cases h <;> grind [EventBody.attempt, StepState.inFlight, StepState.withoutAwaiters]

lemma output_of_takes (h : Takes s seq body t) :
    (t.steps.get stepId).bind StepState.outputRef =
      (body.output stepId <|> (s.steps.get stepId).bind StepState.outputRef) := by
  cases h <;> grind [EventBody.output, StepState.inFlight, StepState.withoutAwaiters]

lemma error_of_takes (h : Takes s seq body t) :
    (t.steps.get stepId).bind StepState.lastError =
      (body.error stepId <|> (s.steps.get stepId).bind StepState.lastError) := by
  cases h <;> grind [EventBody.error, StepState.inFlight, StepState.withoutAwaiters]

lemma named_of_takes (h : Takes s seq body t)
    (hs : ∀ stepId step, s.steps.get stepId = some step → step.stepId = stepId)
    (hget : t.steps.get stepId = some step) : step.stepId = stepId := by
  cases h <;> grind [StepState.inFlight, StepState.withoutAwaiters]

/-- An attempt comes behind those before it. -/
lemma lt_of_attempt (h : Takes s seq body t) {attempt : ℤ}
    (hbody : body.attempt stepId = some attempt) (hget : s.steps.get stepId = some step) :
    step.currentAttempt < attempt := by
  cases h <;> grind [EventBody.attempt]

lemma keys_of_takes (h : Takes s seq body t) :
    t.steps.keys = s.steps.keys ++ body.startedStep.toList := by
  have hset {id : String} {old new : StepState} (hget : s.steps.get id = some old) :
      (s.steps.set id new).keys = s.steps.keys ++ [] := by
    rw [List.append_nil]
    exact OrderedMap.keys_set_of_mem (OrderedMap.mem_keys.2 ⟨old, hget⟩)
  cases h with
  | @stepStarted id _ _ hnew =>
    have hkey : id ∉ s.steps.keys := by
      rw [OrderedMap.mem_keys]
      rintro ⟨old, hget⟩
      rw [hnew] at hget
      cases hget
    rw [OrderedMap.keys, OrderedMap.set_of_not_mem hkey, List.map_append]
    rfl
  | stepCompleted hget | stepFailed hget | attemptScheduled hget | awaitedQueued hget | awaited hget
  | abandoned hget | timerSetParks hget | timerWakes _ _ hget | cancelPropagated _ hget =>
    exact hset hget
  | delivered _ hfound => exact hset (get_of_awaiterOf hfound).1
  | _ => exact (List.append_nil _).symm

lemma StepsRead.concat (h : StepsRead log s) (htakes : Takes s seq e.body t) :
    StepsRead (log ++ [e]) t := by
  constructor
  · rw [keys_of_takes htakes, readings_concat, h.keys]
  · exact fun stepId step => named_of_takes htakes h.named
  · intro stepId
    rw [attempt_of_takes htakes, getLast?_readings_concat, h.attempt]
  · intro stepId
    rw [readings_concat]
    cases hbody : e.body.attempt stepId with
    | none => simpa using h.increasing stepId
    | some attempt =>
      refine List.pairwise_append.mpr ⟨h.increasing stepId, List.pairwise_singleton _ _, ?_⟩
      intro earlier hearlier later hlater
      obtain rfl : later = attempt := by simpa using hlater
      -- the attempt the step is in is the last before, and no less than any other
      obtain ⟨init, last, hinit⟩ := List.eq_nil_or_concat'
        (readings (EventBody.attempt stepId) log) |>.resolve_left (List.ne_nil_of_mem hearlier)
      have hlast := h.attempt stepId
      rw [hinit, List.getLast?_concat] at hlast
      obtain ⟨step, hget, rfl⟩ := Option.map_eq_some_iff.mp hlast
      have hlt := lt_of_attempt htakes hbody hget
      have hpairs := h.increasing stepId
      rw [hinit] at hearlier hpairs
      rcases List.mem_append.mp hearlier with hmem | hmem
      · have hle := (List.pairwise_append.mp hpairs).2.2 earlier hmem _ (List.mem_singleton_self _)
        omega
      · obtain rfl := List.mem_singleton.mp hmem
        exact hlt
  · intro stepId
    rw [output_of_takes htakes, getLast?_readings_concat, h.output]
  · intro stepId
    rw [error_of_takes htakes, getLast?_readings_concat, h.error]

/-- **The steps are those of the log.** -/
theorem stepsRead_of_resume (h : resumeFromLog runId log = .ok s) : StepsRead log s := by
  refine resume_history h ?_ fun log e s t _ _ htaken hread => hread.concat htaken.takes
  exact ⟨rfl, fun _ _ hget => by simp [emptyState] at hget, fun _ => rfl, fun _ => .nil,
    fun _ => rfl, fun _ => rfl⟩

theorem stepsRead_sample : ∃ s, resumeFromLog "r" sampleLog = .ok s ∧ StepsRead sampleLog s :=
  exists_resume_sample.imp fun _ h => ⟨h, stepsRead_of_resume h⟩

/-! ### Settled steps -/

lemma settled_of_takes (h : Takes s seq body t) (hget : s.steps.get stepId = some step)
    (hsettled : isTerminalStepPhase step.phase) (hawaits : body.awaits stepId = false)
    (hretries : step.phase = .failed → body.retries stepId = false) :
    t.steps.get stepId = some step := by
  cases h <;> grind [EventBody.awaits, EventBody.retries, isTerminalStepPhase, awaitsOn]

/-- **A settled step stays as it is** along every log that goes on without an await of it, and
without a retry if it failed. -/
theorem settled_stays (h : replay applyEvent s more = .ok t)
    (hget : s.steps.get stepId = some step) (hsettled : isTerminalStepPhase step.phase)
    (hawaits : ∀ e ∈ more, e.body.awaits stepId = false)
    (hretries : step.phase = .failed → ∀ e ∈ more, e.body.retries stepId = false) :
    t.steps.get stepId = some step := by
  refine stays (P := fun u => u.steps.get stepId = some step) ?_ h hget
  intro e he u v hu htaken
  exact settled_of_takes (taken_of_applyEvent htaken).takes hu hsettled (hawaits e he)
    fun hfailed => hretries hfailed e he

/-- A run with a step that failed. -/
def sampleFailed : RunState String := { emptyState "r" with
  phase := .running
  steps := OrderedMap.empty.set "a" ⟨"a", .failed, 1, none, none, none, none⟩ }

theorem settled_stays_sample : ∃ t step,
    replay applyEvent sampleFailed [⟨7, "t4", .timerSet "x" "t9" (some "a")⟩] = .ok t ∧
      t.pendingTimers.keys = ["x"] ∧ t.steps.get "a" = some step :=
  ⟨_, _, rfl, rfl, @settled_stays String "a" [⟨7, "t4", .timerSet "x" "t9" (some "a")⟩]
    sampleFailed _ _ rfl rfl rfl (by decide) (by decide)⟩

end Workbench.Workflow
