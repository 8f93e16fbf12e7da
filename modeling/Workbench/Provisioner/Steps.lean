import Workbench.Provisioner.Moves

/-!
What one step of the system can be, and what it does to each part of the state: the processes,
the records, the unit directories and the calls. Invariants are proved from these lemmas.
-/

namespace Workbench.Provisioner

open Workbench.Lib Workbench.Lib.Transition

/-- The steps of the system, one constructor for each branch. -/
inductive Happens (cfg : Config) (s : State) : Event → State → Prop
  | destroyCalled {c request} (new : s.calls c = none) :
    Happens cfg s (.call c (.destroy request))
      (s.setCall c ⟨.destroy request, startDestroy request⟩)
  | ensureChained {c request inFlight} (new : s.calls c = none)
    (flight : s.inFlightEnsures request.allocationId = some inFlight) :
    Happens cfg s (.call c (.ensure request)) (s.setCall c ⟨.ensure request, .chained inFlight⟩)
  | ensureCalled {c request} (new : s.calls c = none)
    (flight : s.inFlightEnsures request.allocationId = none) :
    Happens cfg s (.call c (.ensure request))
      { s.setCall c ⟨.ensure request, startEnsure request⟩ with
        inFlightEnsures := Function.update s.inFlightEnsures request.allocationId (some c) }
  | cleared {c request result} (call : s.calls c = some ⟨.ensure request, .returned result⟩)
    (flight : s.inFlightEnsures request.allocationId = some c) :
    Happens cfg s (.clear c) { s with
      inFlightEnsures := Function.update s.inFlightEnsures request.allocationId none }
  | resumed {c request on other result next}
    (call : s.calls c = some ⟨.ensure request, .chained on⟩)
    (settled : s.calls on = some ⟨other, .returned result⟩)
    (flight : s.inFlightEnsures request.allocationId ≠ some on)
    (next_eq : next = if result.hasThrown then .returned result else startEnsure request) :
    Happens cfg s (.resume c) (s.setCall c ⟨.ensure request, next⟩)
  | replied {c request phase r next changes} (call : s.calls c = some ⟨request, phase⟩)
    (moves : Moves cfg s.world request phase r next changes) :
    Happens cfg s (.reply c r) ((s.setCall c ⟨request, next⟩).setWorld
      (s.world.applyAll cfg.allocationsDir changes))
  | exited {pid} (alive : s.world.isAlive pid) : Happens cfg s (.exit pid) (s.setProcess pid none)
  | started {pid} (pos : 0 < pid) (free : s.world.processes pid = none) :
    Happens cfg s (.start pid) (s.setProcess pid (some .foreign))
  | restarted : Happens cfg s .restart s.restart

variable {cfg : Config} {s t : State} {e : Event} {c : ℕ} {request : Request} {phase : Phase}

/-- **Every step is one of these.** -/
theorem step_happens (h : step cfg s e = some t) : Happens cfg s e t := by
  cases e with
  | call c request =>
    simp only [step, Option.ite_none_left_eq_some, Bool.not_eq_true, Option.isSome_eq_false_iff,
      Option.isNone_iff_eq_none, Option.some.injEq] at h
    obtain ⟨hc, rfl⟩ := h
    cases request with
    | destroy request => exact .destroyCalled hc
    | ensure request =>
      simp only [callProvisioner, callEnsure]
      split
      · rename_i hf; exact .ensureChained hc hf
      · rename_i hf; exact .ensureCalled hc hf
  | clear c =>
    simp only [step, clear] at h
    split at h
    · rename_i request result hc
      split_ifs at h with hf
      obtain rfl := Option.some.inj h
      exact .cleared hc hf
    · simp at h
  | resume c =>
    simp only [step, resume] at h
    split at h
    · rename_i request on hc
      split at h
      · rename_i other result ho
        split_ifs at h with hf hr
        all_goals
          obtain rfl := Option.some.inj h
          exact .resumed hc ho hf (by simp [hr])
      · simp at h
    · simp at h
  | reply c r =>
    obtain ⟨request, phase, next, changes, hc, ha, -, rfl⟩ := reply_cases h
    exact .replied hc (advance_moves ha)
  | exit pid =>
    simp only [step, Option.ite_none_right_eq_some, Option.some.injEq] at h
    obtain ⟨ha, rfl⟩ := h
    exact .exited ha
  | start pid =>
    simp only [step, Option.ite_none_left_eq_some, Option.some.injEq, not_or] at h
    obtain ⟨⟨hp, ha⟩, rfl⟩ := h
    exact .started (by omega) (by simpa [World.isAlive] using ha)
  | restart =>
    obtain rfl := Option.some.inj h
    exact .restarted

/-- The changes of a step that is a reply. -/
lemma mem_actionsOf {change : Change} (h : change ∈ actionsOf cfg s e) :
    ∃ c r request phase next changes, e = .reply c r ∧ s.calls c = some ⟨request, phase⟩ ∧
      Moves cfg s.world request phase r next changes ∧ change ∈ changes := by
  cases e with
  | reply c r =>
    simp only [actionsOf] at h
    split at h
    · rename_i request phase hc
      cases ha : advance cfg s.world request phase r with
      | none => simp [ha] at h
      | some x =>
        obtain ⟨next, changes⟩ := x
        exact ⟨c, r, request, phase, next, changes, rfl, hc, advance_moves ha,
          by simpa [ha] using h⟩
    · simp at h
  | _ => simp [actionsOf] at h

/-! ### The parts of a phase -/

def AfterTerminate.rest : AfterTerminate → List String
  | .stop _ rest => rest
  | .abandon _ => []

namespace Phase

/-- The process an ensure has started and not yet recorded. -/
def held : Phase → Option ℕ
  | .writingPid pid | .abandoning _ pid | .recording pid => some pid
  | .terminating (.abandon _) target => some target.pid
  | _ => none

/-- The references a call has found or resolved and not yet come to. -/
def refs : Phase → List String
  | .reading _ _ refs => refs
  | .stopping _ ref rest => ref :: rest
  | .terminating after _ => after.rest
  | .removing _ _ rest | .removingParent _ _ rest => rest
  | _ => []

/-- The unit a call is stopping. -/
def target : Phase → Option UnitRef
  | .terminating _ target | .removing _ target _ | .removingParent _ target _ => some target
  | _ => none

/-- Whether a call runs its own code: it is past the one it waited for, and not settled. -/
def isExecuting : Phase → Bool
  | .chained _ | .returned _ => false
  | _ => true

/-- Whether a call starts no process any more: it looks for units, stops them or is settled. -/
def startsNothing : Phase → Bool
  | .chained _ | .observing | .making _ | .writingPid _ | .abandoning .. | .recording _ => false
  | _ => true

/-- Whether a call has not yet done anything, or does nothing any more. -/
def isInert : Phase → Bool
  | .chained _ | .observing | .returned _ => true
  | _ => false

variable {phase : Phase}

lemma held_of_isInert (h : phase.isInert) : phase.held = none := by
  cases phase <;> first | rfl | simp [isInert] at h

lemma refs_of_isInert (h : phase.isInert) : phase.refs = [] := by
  cases phase <;> first | rfl | simp [isInert] at h

lemma target_of_isInert (h : phase.isInert) : phase.target = none := by
  cases phase <;> first | rfl | simp [isInert] at h

end Phase

lemma isInert_startEnsure (request : EnsureSidecarRequest) : (startEnsure request).isInert := by
  unfold startEnsure; split <;> rfl

lemma isInert_startDestroy (request : DestroySidecarRequest) :
    (startDestroy request).isInert := by
  unfold startDestroy; split <;> rfl

lemma startEnsure_ne_confirmed {request : EnsureSidecarRequest} :
    startEnsure request ≠ .returned .confirmed := by
  unfold startEnsure; split <;> simp

lemma startEnsure_ne_chained {request : EnsureSidecarRequest} {on : ℕ} :
    startEnsure request ≠ .chained on := by
  unfold startEnsure; split <;> simp

/-! ### The phases that code between awaits leads to -/

section

variable {w : World} {purpose : Purpose} {rest refs entries : List String} {ref : String}
  {error : OperationError} {after : AfterTerminate} {target : UnitRef} {failure : Failure}
  {ensure : EnsureSidecarRequest} {destroy : DestroySidecarRequest} {result : ObserveResult}
  {pid on : ℕ} {recorded : Bool}

@[simp] lemma held_returned {ending : Result} : (Phase.returned ending).held = none := rfl

@[simp] lemma refs_returned {ending : Result} : (Phase.returned ending).refs = [] := rfl

@[simp] lemma target_returned {ending : Result} : (Phase.returned ending).target = none := rfl

@[simp] lemma held_making {args : SpawnSidecarProcessArgs} : (Phase.making args).held = none := rfl

@[simp] lemma refs_making {args : SpawnSidecarProcessArgs} : (Phase.making args).refs = [] := rfl

@[simp] lemma target_making {args : SpawnSidecarProcessArgs} :
    (Phase.making args).target = none := rfl

@[simp] lemma startsNothing_returned {ending : Result} :
    (Phase.returned ending).startsNothing := rfl

@[simp] lemma startsNothing_stopping : (Phase.stopping purpose ref rest).startsNothing := rfl

@[simp] lemma held_stopping : (Phase.stopping purpose ref rest).held = none := rfl

@[simp] lemma target_stopping : (Phase.stopping purpose ref rest).target = none := rfl

@[simp] lemma held_continueStops : (continueStops request purpose rest).held = none := by
  cases rest <;> rfl

@[simp] lemma refs_continueStops : (continueStops request purpose rest).refs = rest := by
  cases rest <;> rfl

@[simp] lemma target_continueStops : (continueStops request purpose rest).target = none := by
  cases rest <;> rfl

@[simp] lemma startsNothing_continueStops :
    (continueStops request purpose rest).startsNothing := by
  cases rest <;> rfl

@[simp] lemma held_stopFailed : (stopFailed request purpose error rest).held = none := by
  cases purpose with
  | sweep keep => exact held_continueStops
  | _ => rfl

@[simp] lemma target_stopFailed : (stopFailed request purpose error rest).target = none := by
  cases purpose with
  | sweep keep => exact target_continueStops
  | _ => rfl

@[simp] lemma startsNothing_stopFailed :
    (stopFailed request purpose error rest).startsNothing := by
  cases purpose with
  | sweep keep => exact startsNothing_continueStops
  | _ => rfl

lemma mem_refs_stopFailed (h : ref ∈ (stopFailed request purpose error rest).refs) :
    ref ∈ rest := by
  cases purpose with
  | sweep keep => rwa [stopFailed, refs_continueStops] at h
  | _ => simp [stopFailed, Phase.refs] at h

@[simp] lemma held_enterListing : (enterListing request purpose).held = none := by
  unfold enterListing; split <;> rfl

@[simp] lemma refs_enterListing : (enterListing request purpose).refs = [] := by
  unfold enterListing; split <;> rfl

@[simp] lemma target_enterListing : (enterListing request purpose).target = none := by
  unfold enterListing; split <;> rfl

@[simp] lemma startsNothing_enterListing : (enterListing request purpose).startsNothing := by
  unfold enterListing; split <;> rfl

lemma select_subset : select purpose refs ⊆ refs := by
  cases purpose with
  | sweep keep => exact List.filter_subset_self refs
  | superseded => exact List.Subset.refl refs
  | destroy => exact fun _ h => List.mem_eraseDups.mp h

@[simp] lemma held_continueReading :
    (continueReading request purpose refs entries).held = none := by
  cases entries with
  | nil => exact held_continueStops
  | cons entry entries => rfl

@[simp] lemma target_continueReading :
    (continueReading request purpose refs entries).target = none := by
  cases entries with
  | nil => exact target_continueStops
  | cons entry entries => rfl

@[simp] lemma startsNothing_continueReading :
    (continueReading request purpose refs entries).startsNothing := by
  cases entries with
  | nil => exact startsNothing_continueStops
  | cons entry entries => rfl

lemma mem_refs_continueReading (h : ref ∈ (continueReading request purpose refs entries).refs) :
    ref ∈ refs := by
  cases entries with
  | nil => exact select_subset (by simpa [continueReading] using h)
  | cons entry entries => exact h

/-- What reading an entry adds is the reference of a live process its pid file names. -/
lemma mem_readEntry {entry : String} (h : ref ∈ readEntry w request refs entry) :
    ref ∈ refs ∨ ∃ generation pid, generationOf entry = some generation ∧
      w.readPidFile (request.allocationId, entry) = some pid ∧ w.isAlive pid ∧
      ref = externalRefOf request.allocationId generation pid := by
  unfold readEntry at h
  split at h
  · rename_i generation pid hg hp
    split_ifs at h with ha
    · rcases List.mem_append.mp h with h | h
      · exact .inl h
      · exact .inr ⟨generation, pid, hg, hp, ha, by simpa using h⟩
    · exact .inl h
  · exact .inl h

/-- A live process that the pid file of the entry names is found. -/
lemma readEntry_found {entry : String} {generation pid : ℕ}
    (hg : generationOf entry = some generation)
    (hp : w.readPidFile (request.allocationId, entry) = some pid) (ha : w.isAlive pid) :
    externalRefOf request.allocationId generation pid ∈ readEntry w request refs entry := by
  simp [readEntry, hg, hp, ha]

lemma subset_readEntry {entry : String} : refs ⊆ readEntry w request refs entry := by
  unfold readEntry
  split
  · split
    exacts [List.subset_append_left _ _, List.Subset.refl _]
  · exact List.Subset.refl _

@[simp] lemma held_afterTerminate : (afterTerminate request after target).held = none := by
  cases after with
  | stop purpose rest =>
    simp only [afterTerminate]
    split
    · rfl
    · exact held_stopFailed
  | abandon failure => rfl

@[simp] lemma startsNothing_afterTerminate :
    (afterTerminate request after target).startsNothing := by
  cases after with
  | stop purpose rest =>
    simp only [afterTerminate]
    split
    · rfl
    · exact startsNothing_stopFailed
  | abandon failure => rfl

lemma mem_refs_afterTerminate (h : ref ∈ (afterTerminate request after target).refs) :
    ref ∈ after.rest := by
  cases after with
  | stop purpose rest =>
    simp only [afterTerminate] at h
    split at h
    · exact h
    · exact mem_refs_stopFailed h
  | abandon failure => simp [afterTerminate, Phase.refs] at h

lemma target_afterTerminate {target' : UnitRef}
    (h : (afterTerminate request after target).target = some target') : target = target' := by
  cases after with
  | stop purpose rest =>
    simp only [afterTerminate] at h
    split at h
    · exact Option.some.inj h
    · simp at h
  | abandon failure => simp [afterTerminate, Phase.target] at h

lemma afterTerminate_ne_terminating {after' : AfterTerminate} {target' : UnitRef} :
    afterTerminate request after target ≠ .terminating after' target' := by
  cases after with
  | stop purpose rest =>
    simp only [afterTerminate]
    split
    · simp
    · intro h
      have ht := @target_stopFailed request purpose rest
        (invalidAllocationId target.unit.allocationId)
      rw [h] at ht
      simp [Phase.target] at ht
  | abandon failure => simp [afterTerminate]

@[simp] lemma held_terminateFailed :
    (terminateFailed request after target failure).held = none := by
  cases after with
  | stop purpose rest => exact held_stopFailed
  | abandon failure => rfl

@[simp] lemma target_terminateFailed :
    (terminateFailed request after target failure).target = none := by
  cases after with
  | stop purpose rest => exact target_stopFailed
  | abandon failure => rfl

@[simp] lemma startsNothing_terminateFailed :
    (terminateFailed request after target failure).startsNothing := by
  cases after with
  | stop purpose rest => exact startsNothing_stopFailed
  | abandon failure => rfl

lemma mem_refs_terminateFailed (h : ref ∈ (terminateFailed request after target failure).refs) :
    ref ∈ after.rest := by
  cases after with
  | stop purpose rest => exact mem_refs_stopFailed h
  | abandon failure => simp [terminateFailed, Phase.refs] at h

/-- `terminate` signals a live process and then polls; with a dead one it is done. -/
lemma terminateStart_cases :
    (w.isAlive target.pid ∧ terminateStart w request after target =
      (.terminating after target, [.signal target.unit target.pid .sigterm])) ∨
    (w.processes target.pid = none ∧ terminateStart w request after target =
      (afterTerminate request after target, [])) := by
  by_cases h : w.isAlive target.pid
  · exact .inl ⟨h, by simp [terminateStart, h]⟩
  · exact .inr ⟨by simpa [World.isAlive] using h, by simp [terminateStart, h]⟩

/-- After `observeEnsure` an ensure ends, sweeps, or starts a unit where none is recorded. -/
lemma afterObserveEnsure_cases (cfg : Config) (request : Request) (ensure : EnsureSidecarRequest)
    (result : ObserveResult) :
    (∃ ending, afterObserveEnsure cfg request ensure result = .returned ending) ∨
    (∃ record ref, result = .observed record ∧ record.externalRef = some ref ∧
      afterObserveEnsure cfg request ensure result = enterListing request (.sweep ref)) ∨
    (∃ record args, result = .observed record ∧ record.externalRef = none ∧
      spawnArgsFor cfg ensure = .ok args ∧
      afterObserveEnsure cfg request ensure result = .making args) := by
  cases result with
  | rejected code message => exact .inl ⟨_, rfl⟩
  | observed record =>
    simp only [afterObserveEnsure]
    cases hr : record.externalRef with
    | some ref => exact .inr (.inl ⟨record, ref, rfl, hr, rfl⟩)
    | none =>
      cases ha : spawnArgsFor cfg ensure with
      | ok args => exact .inr (.inr ⟨record, args, rfl, hr, rfl, rfl⟩)
      | error error => exact .inl ⟨_, rfl⟩

/-- The reference a destroy stops without looking for units: its own, or the recorded one. -/
def resolvedRef (records : Records) (destroy : DestroySidecarRequest) : Option String :=
  match destroy.externalRef with
  | some ref => some ref
  | none => (records.get destroy.allocationId).bind (·.externalRef)

/-- A destroy that was let through stops the reference it has, or lists units. -/
lemma afterObserveDestroy_observed {now : String} {records : Records}
    {destroy : DestroySidecarRequest} {record : AllocationRecord}
    (h : (observeDestroy now records (Request.destroy destroy).observeArgs).1 =
      .observed record) :
    (∃ ref, resolvedRef records destroy = some ref ∧
      afterObserveDestroy (.destroy destroy) destroy (.observed record) =
        .stopping .destroy ref []) ∨
    (resolvedRef records destroy = none ∧
      afterObserveDestroy (.destroy destroy) destroy (.observed record) =
        enterListing (.destroy destroy) .destroy) := by
  have hr : record.externalRef = (records.get destroy.allocationId).bind (·.externalRef) := by
    have hs := observeDestroy_spec now records (Request.destroy destroy).observeArgs
    generalize observeDestroy now records (Request.destroy destroy).observeArgs = d at hs h
    cases hs with
    | refused code message => simp at h
    | present r get sidecar generation state =>
      obtain rfl : r = record := by simpa using h
      have get' : records.get destroy.allocationId = some r := get
      simp [get']
    | fresh externalRef missing older =>
      obtain rfl : _ = record := by simpa using h
      cases hg : records.get destroy.allocationId with
      | none => exact missing hg
      | some old => exact (older old hg).2.2.symm
  simp only [resolvedRef, afterObserveDestroy, ← hr]
  rcases destroy.externalRef with _ | ref
  · rcases record.externalRef with _ | ref
    · exact .inr ⟨rfl, rfl⟩
    · exact .inl ⟨ref, rfl, rfl⟩
  · exact .inl ⟨ref, rfl, rfl⟩

/-- After `observeDestroy` a destroy ends, stops the reference it has, or lists units. -/
lemma afterObserveDestroy_cases (now : String) (records : Records)
    (destroy : DestroySidecarRequest) :
    (∃ ending, afterObserveDestroy (.destroy destroy) destroy
        (observeDestroy now records (Request.destroy destroy).observeArgs).1 = .returned ending ∧
      ending ≠ .confirmed) ∨
    (∃ record ref, (observeDestroy now records (Request.destroy destroy).observeArgs).1 =
        .observed record ∧ resolvedRef records destroy = some ref ∧
      afterObserveDestroy (.destroy destroy) destroy
        (observeDestroy now records (Request.destroy destroy).observeArgs).1 =
          .stopping .destroy ref []) ∨
    (∃ record, (observeDestroy now records (Request.destroy destroy).observeArgs).1 =
        .observed record ∧ resolvedRef records destroy = none ∧
      afterObserveDestroy (.destroy destroy) destroy
        (observeDestroy now records (Request.destroy destroy).observeArgs).1 =
          enterListing (.destroy destroy) .destroy) := by
  cases ho : (observeDestroy now records (Request.destroy destroy).observeArgs).1 with
  | rejected code message => exact .inl ⟨_, rfl, by simp⟩
  | observed record =>
    rcases afterObserveDestroy_observed ho with ⟨ref, hres, h⟩ | ⟨hres, h⟩
    · exact .inr (.inl ⟨record, ref, rfl, hres, h⟩)
    · exact .inr (.inr ⟨record, rfl, hres, h⟩)

@[simp] lemma held_afterObserveEnsure :
    (afterObserveEnsure cfg request ensure result).held = none := by
  rcases afterObserveEnsure_cases cfg request ensure result with
    ⟨_, h⟩ | ⟨_, _, -, -, h⟩ | ⟨_, _, -, -, -, h⟩ <;> simp [h]

@[simp] lemma refs_afterObserveEnsure :
    (afterObserveEnsure cfg request ensure result).refs = [] := by
  rcases afterObserveEnsure_cases cfg request ensure result with
    ⟨_, h⟩ | ⟨_, _, -, -, h⟩ | ⟨_, _, -, -, -, h⟩ <;> simp [h]

@[simp] lemma target_afterObserveEnsure :
    (afterObserveEnsure cfg request ensure result).target = none := by
  rcases afterObserveEnsure_cases cfg request ensure result with
    ⟨_, h⟩ | ⟨_, _, -, -, h⟩ | ⟨_, _, -, -, -, h⟩ <;> simp [h]

@[simp] lemma held_afterObserveDestroy :
    (afterObserveDestroy request destroy result).held = none := by
  unfold afterObserveDestroy
  split
  · rfl
  · split <;> simp

@[simp] lemma target_afterObserveDestroy :
    (afterObserveDestroy request destroy result).target = none := by
  unfold afterObserveDestroy
  split
  · rfl
  · split <;> simp

@[simp] lemma startsNothing_afterObserveDestroy :
    (afterObserveDestroy request destroy result).startsNothing := by
  unfold afterObserveDestroy
  split
  · rfl
  · split <;> simp

@[simp] lemma held_afterRecordUnit : (afterRecordUnit request pid recorded).held = none := by
  unfold afterRecordUnit; split <;> simp

@[simp] lemma target_afterRecordUnit : (afterRecordUnit request pid recorded).target = none := by
  unfold afterRecordUnit; split <;> simp

@[simp] lemma startsNothing_afterRecordUnit :
    (afterRecordUnit request pid recorded).startsNothing := by
  unfold afterRecordUnit; split <;> simp

end

end Workbench.Provisioner
