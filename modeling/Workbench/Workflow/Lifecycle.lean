import Mathlib.Data.List.Pairwise
import Workbench.Workflow.Takes

/-!
The life of a run, as its log tells it.

A run is started once and ends once, with the last entry of its log. A cancel that is asked for
wins: the run can only end as cancelled from there on, and no step and no child is started.
-/

namespace Workbench.Workflow

open Workbench.Lib Workbench.Lib.Replay

variable {π : Type} {runId : String} {log : List (WorkflowEvent π)} {s t : RunState π}
  {e : WorkflowEvent π} {body : EventBody π} {seq : ℤ}

/-- What the run as a whole goes through. -/
inductive Mark
  | started
  | cancelAsked
  | completed
  | failed
  | cancelled
  deriving DecidableEq, Repr

def EventBody.mark : EventBody π → Option Mark
  | runStarted .. => some .started
  | cancelRequested .. => some .cancelAsked
  | runCompleted => some .completed
  | runFailed .. => some .failed
  | runCancelled => some .cancelled
  | _ => none

def marks (log : List (WorkflowEvent π)) : List Mark := log.filterMap (·.body.mark)

/-- The run was asked to stop, some times over, before or after it started. -/
def Stopping (marks : List Mark) : Prop :=
  ∃ n, marks = List.replicate (n + 1) .cancelAsked ∨
    marks = .started :: List.replicate (n + 1) .cancelAsked

/-- The marks lead to the phase. -/
def Leads (marks : List Mark) : RunPhase → Prop
  | .pending => marks = []
  | .running => marks = [.started]
  | .completed => marks = [.started, .completed]
  | .failed => marks = [.started, .failed]
  | .cancelling => Stopping marks
  | .cancelled => ∃ before, Stopping before ∧ marks = before ++ [.cancelled]

def EventBody.startsWork : EventBody π → Bool
  | stepStarted .. | childSpawned .. => true
  | _ => false

def EventBody.endsRun : EventBody π → Bool
  | runCompleted | runFailed .. | runCancelled => true
  | _ => false

/-- The log of one life. -/
structure OneLife (log : List (WorkflowEvent π)) (s : RunState π) : Prop where
  leads : Leads (marks log) s.phase
  increasing : log.Pairwise fun e e' => e.seq < e'.seq
  within : ∀ e ∈ log, 1 ≤ e.seq ∧ e.seq ≤ s.lastSeq
  /-- the run ends with the last entry, and with no other -/
  ends : ∀ front e back, log = front ++ e :: back → e.body.endsRun →
    back = [] ∧ isTerminalRunPhase s.phase
  /-- work is started while the run is running -/
  starts : ∀ front e back, log = front ++ e :: back → e.body.startsWork →
    marks front = [.started]

lemma marks_concat : marks (log ++ [e]) = marks log ++ e.body.mark.toList := by
  rw [marks, List.filterMap_append, ← marks]
  cases hmark : e.body.mark <;> simp [hmark]

lemma Stopping.concat {marks : List Mark} (h : Stopping marks) :
    Stopping (marks ++ [.cancelAsked]) := by
  obtain ⟨n, rfl | rfl⟩ := h
  · exact ⟨n + 1, .inl List.replicate_succ'.symm⟩
  · exact ⟨n + 1, .inr (by rw [List.replicate_succ' (n := n + 1), List.cons_append])⟩

lemma leads_of_takes {marks : List Mark} (h : Takes s seq body t) (hs : Leads marks s.phase) :
    Leads (marks ++ body.mark.toList) t.phase := by
  cases h with
  | runStarted hpending =>
    rw [hpending] at hs
    obtain rfl : marks = [] := hs
    rfl
  | runCompleted hrunning | runFailed hrunning =>
    rw [hrunning] at hs
    obtain rfl : marks = [.started] := hs
    rfl
  | cancelRequestedAgain _ hcancelling =>
    rw [hcancelling] at hs
    exact hcancelling ▸ hs.concat
  | cancelRequested _ hlive =>
    rcases hlive with hlive | hlive
    · rw [hlive] at hs
      obtain rfl : marks = [.started] := hs
      exact ⟨0, .inr rfl⟩
    · rw [hlive] at hs
      obtain rfl : marks = [] := hs
      exact ⟨0, .inl rfl⟩
  | runCancelled hcancelling =>
    rw [hcancelling] at hs
    exact ⟨marks, hs, rfl⟩
  | awaitedQueued =>
    unfold takeQueued
    split <;> simpa [EventBody.mark] using hs
  | _ => simpa [EventBody.mark] using hs

lemma terminal_of_endsRun (h : Takes s seq body t) (hends : body.endsRun) :
    isTerminalRunPhase t.phase := by
  cases h with
  | runCompleted | runFailed | runCancelled => rfl
  | _ => cases hends

lemma running_of_startsWork (h : Takes s seq body t) (hstarts : body.startsWork) :
    s.phase = .running := by
  cases h with
  | stepStarted hrunning | childSpawned hrunning => exact hrunning
  | _ => cases hstarts

/-- **A run has one life.** -/
theorem oneLife_of_resume (h : resumeFromLog runId log = .ok s) : OneLife log s := by
  refine resume_history h ⟨rfl, .nil, by simp, by simp, by simp⟩ ?_
  rintro log e s t - - ⟨hpositive, hlater, hlive, htakes⟩
    ⟨hleads, hincreasing, hwithin, hends, hstarts⟩
  have hlast := htakes.lastSeq
  refine ⟨?_, ?_, ?_, ?_, ?_⟩
  · rw [marks_concat]
    exact leads_of_takes htakes hleads
  · refine List.pairwise_append.mpr ⟨hincreasing, List.pairwise_singleton _ _, ?_⟩
    intro d hd e' he'
    obtain rfl := List.mem_singleton.mp he'
    have hle := (hwithin d hd).2
    omega
  · intro d hd
    rw [hlast]
    rcases List.mem_append.mp hd with hd | hd
    · have hbounds := hwithin d hd
      omega
    · obtain rfl := List.mem_singleton.mp hd
      omega
  · intro front d back hsplit hd
    rcases split_concat hsplit with ⟨back', rfl, hlog⟩ | ⟨rfl, rfl, rfl⟩
    · -- the run had ended, and nothing is taken then
      have hended := (hends front d back' hlog hd).2
      rw [hlive] at hended
      cases hended
    · exact ⟨rfl, terminal_of_endsRun htakes hd⟩
  · intro front d back hsplit hd
    rcases split_concat hsplit with ⟨back', rfl, hlog⟩ | ⟨rfl, rfl, rfl⟩
    · exact hstarts front d back' hlog hd
    · rw [running_of_startsWork htakes hd] at hleads
      exact hleads

theorem oneLife_sample : ∃ s, resumeFromLog "r" sampleLog = .ok s ∧ OneLife sampleLog s :=
  exists_resume_sample.imp fun _ h => ⟨h, oneLife_of_resume h⟩

end Workbench.Workflow
