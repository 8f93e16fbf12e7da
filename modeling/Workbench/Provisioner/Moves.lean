import Workbench.Provisioner.System

/-!
What one advance of a call can be: one constructor for each way an awaited operation can end
and for each branch that a later argument tells apart.
-/

namespace Workbench.Provisioner

open Workbench.Lib Workbench.Lib.Transition

variable (cfg : Config) (w : World) (request : Request)

/-- `Moves phase reply next changes`: from the phase, the reply leads to the next phase. -/
inductive Moves : Phase → Reply → Phase → List Change → Prop
  | observedEnsure {now} (ensure) (is : request = .ensure ensure) :
    Moves .observing (.stored now)
      (afterObserveEnsure cfg request ensure (observeEnsure now w.records request.observeArgs).1)
      (persistChanges true ((StoreOp.observeEnsure request.observeArgs).decide now w.records).2)
  | observedDestroy {now} (destroy) (is : request = .destroy destroy) :
    Moves .observing (.stored now)
      (afterObserveDestroy request destroy (observeDestroy now w.records request.observeArgs).1)
      (persistChanges true ((StoreOp.observeDestroy request.observeArgs).decide now w.records).2)
  | recorded {now pid} :
    Moves (.recording pid) (.stored now)
      (afterRecordUnit request pid (recordUnit now w.records (recordUnitArgs request pid)).1)
      (persistChanges true ((StoreOp.recordUnit (recordUnitArgs request pid)).decide now
        w.records).2)
  | storeFailed {phase op now written failure} (pending : pendingOp request phase = some op) :
    Moves phase (.storeFailed now written failure) (.returned (.threw failure.detail))
      (if written then persistChanges false (op.decide now w.records).2 else [])
  | spawned {args pid} (pos : 0 < pid) (free : w.processes pid = none) :
    Moves (.making args) (.spawned pid) (.writingPid pid)
      [.makeUnitDir request.unit, .spawn request.unit args pid]
  | notMade {args reply changes error}
    (leaves : changes = [] ∨ changes = [.makeUnitDir request.unit]) (failed : reply.isFailure) :
    Moves (.making args) reply (.returned (.rejected error)) changes
  | pidWritten {pid} (made : w.units.has (unitDirKey request.unit)) :
    Moves (.writingPid pid) .done (.recording pid) [.writePidFile request.unit pid]
  | pidNotWritten {pid failure} :
    Moves (.writingPid pid) (.failed failure) (.abandoning failure pid) []
  | abandoned {pid failure} :
    Moves (.abandoning failure pid) .done
      (terminateStart w request (.abandon failure) ⟨request.unit, pid⟩).1
      (terminateStart w request (.abandon failure) ⟨request.unit, pid⟩).2
  | notAbandoned {pid failure failure'} :
    Moves (.abandoning failure pid) (.failed failure')
      (terminateFailed request (.abandon failure) ⟨request.unit, pid⟩ failure') []
  | listed {purpose names} (all : names.Perm (w.entriesOf request.allocationId)) :
    Moves (.listing purpose) (.listed names) (continueReading request purpose [] names) []
  | notListed {purpose failure message} :
    Moves (.listing purpose) (.failed failure) (.returned (.threw message)) []
  | read {purpose entry entries refs} :
    Moves (.reading purpose (entry :: entries) refs) .done
      (continueReading request purpose (readEntry w request refs entry) entries) []
  | notRead {purpose entry entries refs failure message} :
    Moves (.reading purpose (entry :: entries) refs) (.failed failure)
      (.returned (.threw message)) []
  | unparsed {purpose ref rest reply} (parse : parseExternalRef ref = none)
    (ended : reply = .done ∨ ∃ failure, reply = .failed failure) :
    Moves (.stopping purpose ref rest) reply
      (stopFailed request purpose (invalidExternalRef ref) rest) []
  | stopped {purpose ref rest target} (parse : parseExternalRef ref = some target) :
    Moves (.stopping purpose ref rest) .done
      (terminateStart w request (.stop purpose rest) target).1
      (terminateStart w request (.stop purpose rest) target).2
  | notStopped {purpose ref rest target failure} (parse : parseExternalRef ref = some target) :
    Moves (.stopping purpose ref rest) (.failed failure)
      (terminateFailed request (.stop purpose rest) target failure) []
  | exited {after target expired} (dead : w.processes target.pid = none) :
    Moves (.terminating after target) (.polled expired) (afterTerminate request after target) []
  | killed {after target} (alive : w.isAlive target.pid) :
    Moves (.terminating after target) (.polled true) (afterTerminate request after target)
      [.signal target.unit target.pid .sigkill]
  | waited {after target} (alive : w.isAlive target.pid) :
    Moves (.terminating after target) (.polled false) (.terminating after target) []
  | notTerminated {after target failure} :
    Moves (.terminating after target) (.failed failure)
      (terminateFailed request after target failure) []
  | removed {purpose target rest} :
    Moves (.removing purpose target rest) .done (.removingParent purpose target rest)
      [.removeUnitDir target.unit]
  | notRemoved {purpose target rest failure error} :
    Moves (.removing purpose target rest) (.failed failure)
      (stopFailed request purpose error rest) []
  | parentRemoved {purpose target rest} :
    Moves (.removingParent purpose target rest) .done (continueStops request purpose rest)
      [.removeAllocationDir target.unit.allocationId]
  | parentNotRemoved {purpose target rest failure error} :
    Moves (.removingParent purpose target rest) (.failed failure)
      (stopFailed request purpose error rest) []

variable {cfg w request} {phase next : Phase} {r : Reply} {changes : List Change}

/-- A rejected store operation is a move. -/
lemma storeFailed_moves {now : String} {written : Bool} {failure : Failure}
    (h : advance cfg w request phase (.storeFailed now written failure) = some (next, changes)) :
    Moves cfg w request phase (.storeFailed now written failure) next changes := by
  simp only [advance, Option.map_eq_some_iff, Prod.mk.injEq] at h
  obtain ⟨op, hop, rfl, rfl⟩ := h
  exact .storeFailed hop

lemma stored_moves {now : String}
    (h : advance cfg w request phase (.stored now) = some (next, changes)) :
    Moves cfg w request phase (.stored now) next changes := by
  cases phase with
  | observing =>
    cases request with
    | ensure ensure =>
      simp only [advance, pendingOp, advanceStore, Option.some.injEq, Prod.mk.injEq] at h
      obtain ⟨rfl, rfl⟩ := h
      exact .observedEnsure ensure rfl
    | destroy destroy =>
      simp only [advance, pendingOp, advanceStore, Option.some.injEq, Prod.mk.injEq] at h
      obtain ⟨rfl, rfl⟩ := h
      exact .observedDestroy destroy rfl
  | recording pid =>
    simp only [advance, pendingOp, advanceStore, Option.some.injEq, Prod.mk.injEq] at h
    obtain ⟨rfl, rfl⟩ := h
    exact .recorded
  | _ => simp [advance, pendingOp] at h

/-- **Every advance is one of the moves.** -/
theorem advance_moves (h : advance cfg w request phase r = some (next, changes)) :
    Moves cfg w request phase r next changes := by
  cases r with
  | stored now => exact stored_moves h
  | storeFailed now written failure => exact storeFailed_moves h
  | spawned pid =>
    cases phase <;> simp only [advance, reduceCtorEq] at h
    split_ifs at h with hp
    simp only [Option.some.injEq, Prod.mk.injEq] at h
    obtain ⟨rfl, rfl⟩ := h
    rw [not_or] at hp
    exact .spawned (by omega) (by simpa [World.isAlive] using hp.2)
  | mkdirFailed failure =>
    cases phase <;> simp only [advance, reduceCtorEq, Option.some.injEq, Prod.mk.injEq] at h
    obtain ⟨rfl, rfl⟩ := h
    exact .notMade (.inl rfl) rfl
  | spawnFailed failure =>
    cases phase <;> simp only [advance, reduceCtorEq, Option.some.injEq, Prod.mk.injEq] at h
    obtain ⟨rfl, rfl⟩ := h
    exact .notMade (.inr rfl) rfl
  | listed names =>
    cases phase <;> simp only [advance, reduceCtorEq] at h
    split_ifs at h with hn
    simp only [Option.some.injEq, Prod.mk.injEq] at h
    obtain ⟨rfl, rfl⟩ := h
    exact .listed hn
  | polled expired =>
    cases phase <;> simp only [advance, reduceCtorEq] at h
    split_ifs at h with ha he
    all_goals
      simp only [Option.some.injEq, Prod.mk.injEq] at h
      obtain ⟨rfl, rfl⟩ := h
    · subst he; exact .killed ha
    · obtain rfl : expired = false := by simpa using he
      exact .waited ha
    · exact .exited (by simpa [World.isAlive] using ha)
  | done =>
    cases phase with
    | writingPid pid =>
      simp only [advance] at h
      split_ifs at h with hu
      simp only [Option.some.injEq, Prod.mk.injEq] at h
      obtain ⟨rfl, rfl⟩ := h
      exact .pidWritten hu
    | abandoning failure pid =>
      simp only [advance, Option.some.injEq] at h
      obtain ⟨rfl, rfl⟩ := Prod.mk.inj h
      exact .abandoned
    | reading purpose entries refs =>
      cases entries with
      | nil => simp [advance] at h
      | cons entry entries =>
        simp only [advance, Option.some.injEq, Prod.mk.injEq] at h
        obtain ⟨rfl, rfl⟩ := h
        exact .read
    | stopping purpose ref rest =>
      simp only [advance] at h
      split at h
      · rename_i hr
        simp only [Option.some.injEq, Prod.mk.injEq] at h
        obtain ⟨rfl, rfl⟩ := h
        exact .unparsed hr (.inl rfl)
      · rename_i target hr
        simp only [Option.some.injEq] at h
        obtain ⟨rfl, rfl⟩ := Prod.mk.inj h
        exact .stopped hr
    | removing purpose target rest =>
      simp only [advance, Option.some.injEq, Prod.mk.injEq] at h
      obtain ⟨rfl, rfl⟩ := h
      exact .removed
    | removingParent purpose target rest =>
      simp only [advance, Option.some.injEq, Prod.mk.injEq] at h
      obtain ⟨rfl, rfl⟩ := h
      exact .parentRemoved
    | _ => simp [advance] at h
  | failed failure =>
    cases phase with
    | reading purpose entries refs =>
      cases entries with
      | nil => simp [advance] at h
      | cons entry entries =>
        simp only [advance, Option.some.injEq, Prod.mk.injEq] at h
        obtain ⟨rfl, rfl⟩ := h
        exact .notRead
    | stopping purpose ref rest =>
      simp only [advance] at h
      split at h
      all_goals
        rename_i hr
        simp only [Option.some.injEq, Prod.mk.injEq] at h
        obtain ⟨rfl, rfl⟩ := h
      · exact .unparsed hr (.inr ⟨_, rfl⟩)
      · exact .notStopped hr
    | _ =>
      simp only [advance, reduceCtorEq, Option.some.injEq, Prod.mk.injEq] at h
      try
        obtain ⟨rfl, rfl⟩ := h
        constructor

end Workbench.Provisioner
