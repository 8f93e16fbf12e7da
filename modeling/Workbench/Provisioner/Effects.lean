import Workbench.Provisioner.Steps

/-!
What a move of a call does to the processes, the records, the unit directories and to the parts
of its own phase, and from that what any step does to them.
-/

namespace Workbench.Provisioner

open Workbench.Lib Workbench.Lib.Transition

variable {cfg : Config} {w : World} {request : Request} {phase next : Phase} {r : Reply}
  {changes : List Change}

namespace Moves

/-- What a call can do next: start a unit after `observeEnsure`, go on with a start, or start
nothing any more. -/
lemma next_cases (h : Moves cfg w request phase r next changes) :
    next.startsNothing ∨
    (∃ ensure now record args, request = .ensure ensure ∧ phase = .observing ∧
      r = .stored now ∧ (observeEnsure now w.records request.observeArgs).1 = .observed record ∧
      record.externalRef = none ∧ spawnArgsFor cfg ensure = .ok args ∧ next = .making args) ∨
    (∃ args pid, phase = .making args ∧ r = .spawned pid ∧ next = .writingPid pid) ∨
    (∃ pid, phase = .writingPid pid ∧
      (next = .recording pid ∨ ∃ failure, next = .abandoning failure pid)) := by
  cases h with
  | @observedEnsure now ensure is =>
    rcases afterObserveEnsure_cases cfg request ensure
        (observeEnsure now w.records request.observeArgs).1 with
      ⟨_, h⟩ | ⟨_, _, -, -, h⟩ | ⟨record, args, ho, hr, ha, h⟩ <;> rw [h]
    · exact .inl rfl
    · exact .inl (by simp)
    · exact .inr (.inl ⟨ensure, now, record, args, is, rfl, rfl, ho, hr, ha, rfl⟩)
  | observedDestroy | recorded => exact .inl (by simp)
  | spawned => exact .inr (.inr (.inl ⟨_, _, rfl, rfl, rfl⟩))
  | pidWritten => exact .inr (.inr (.inr ⟨_, rfl, .inl rfl⟩))
  | pidNotWritten => exact .inr (.inr (.inr ⟨_, rfl, .inr ⟨_, rfl⟩⟩))
  | abandoned | stopped =>
    rcases terminateStart_cases (w := w) with ⟨-, h⟩ | ⟨-, h⟩ <;> rw [h]
    · exact .inl rfl
    · exact .inl (by simp)
  | waited | removed => exact .inl rfl
  | _ => exact .inl (by simp)

lemma ne_chained (h : Moves cfg w request phase r next changes) (on : ℕ) :
    phase ≠ .chained on ∧ next ≠ .chained on := by
  constructor
  · rintro rfl
    cases h with
    | storeFailed pending => simp [pendingOp] at pending
  · rintro rfl
    rcases h.next_cases with h | ⟨_, _, _, _, -, -, -, -, -, -, h⟩ | ⟨_, _, -, -, h⟩ |
      ⟨_, -, h | ⟨_, h⟩⟩ <;> simp [Phase.startsNothing] at h

/-- A start begins when `observeEnsure` finds no unit recorded. -/
lemma making_next {args : SpawnSidecarProcessArgs}
    (h : Moves cfg w request phase r (.making args) changes) :
    ∃ ensure now record, request = .ensure ensure ∧ phase = .observing ∧ r = .stored now ∧
      (observeEnsure now w.records request.observeArgs).1 = .observed record ∧
      record.externalRef = none ∧ spawnArgsFor cfg ensure = .ok args := by
  rcases h.next_cases with h | ⟨ensure, now, record, args', hr, hp, hst, ho, hn, ha, h⟩ |
    ⟨_, _, -, -, h⟩ | ⟨_, -, h | ⟨_, h⟩⟩
  · simp [Phase.startsNothing] at h
  · obtain rfl := by simpa using h
    exact ⟨ensure, now, record, hr, hp, hst, ho, hn, ha⟩
  all_goals simp at h

lemma isExecuting (h : Moves cfg w request phase r next changes) : phase.isExecuting := by
  cases h with
  | storeFailed pending => cases phase <;> simp [pendingOp, Phase.isExecuting] at pending ⊢
  | _ => rfl

/-- Of the processes a move touches at most one: one it spawns, or one it kills. -/
lemma processes (h : Moves cfg w request phase r next changes) :
    (w.applyAll cfg.allocationsDir changes).processes = w.processes ∨
    (∃ args pid, phase = .making args ∧ r = .spawned pid ∧ next = .writingPid pid ∧ 0 < pid ∧
      w.processes pid = none ∧ (w.applyAll cfg.allocationsDir changes).processes =
        Function.update w.processes pid (some (.sidecar request.unit))) ∨
    (∃ after target, phase = .terminating after target ∧
      next = afterTerminate request after target ∧ w.isAlive target.pid ∧
      (w.applyAll cfg.allocationsDir changes).processes =
        Function.update w.processes target.pid none) := by
  have persist : ∀ (b : Bool) (record : Option AllocationRecord),
      (w.applyAll cfg.allocationsDir (persistChanges b record)).processes = w.processes := by
    rintro b (_ | record) <;> simp [persistChanges]
  have terminate : ∀ after target, (w.applyAll cfg.allocationsDir
      (terminateStart w request after target).2).processes = w.processes := by
    intro after target
    rcases terminateStart_cases with ⟨-, h⟩ | ⟨-, h⟩ <;> rw [h] <;> simp
  cases h with
  | observedEnsure | observedDestroy | recorded => exact .inl (persist _ _)
  | @storeFailed phase op now written failure pending =>
    cases written
    · exact .inl rfl
    · exact .inl (persist _ _)
  | spawned pos free => exact .inr (.inl ⟨_, _, rfl, rfl, rfl, pos, free, by simp⟩)
  | notMade leaves failed => rcases leaves with rfl | rfl <;> simp
  | abandoned | stopped => exact .inl (terminate _ _)
  | killed alive => exact .inr (.inr ⟨_, _, rfl, rfl, alive, by simp⟩)
  | _ => simp

/-- The records change by the operation of the store that the call awaits; when that rejects,
the state file may have taken it and the records in memory have not. -/
lemma records (h : Moves cfg w request phase r next changes) :
    ((w.applyAll cfg.allocationsDir changes).records = w.records ∧
      (w.applyAll cfg.allocationsDir changes).file = w.file) ∨
    ∃ op now, pendingOp request phase = some op ∧
      ((w.applyAll cfg.allocationsDir changes).file = w.file ∨
        (w.applyAll cfg.allocationsDir changes).file = op.apply now w.records) ∧
      ((r = .stored now ∧
          (w.applyAll cfg.allocationsDir changes).records = op.apply now w.records ∧
          ((w.applyAll cfg.allocationsDir changes).records = w.records ∨
            (w.applyAll cfg.allocationsDir changes).file = op.apply now w.records)) ∨
        (w.applyAll cfg.allocationsDir changes).records = w.records) := by
  have stored : ∀ op now, pendingOp request phase = some op → r = .stored now →
      changes = persistChanges true (op.decide now w.records).2 →
      ∃ op now, pendingOp request phase = some op ∧
        ((w.applyAll cfg.allocationsDir changes).file = w.file ∨
          (w.applyAll cfg.allocationsDir changes).file = op.apply now w.records) ∧
        ((r = .stored now ∧
            (w.applyAll cfg.allocationsDir changes).records = op.apply now w.records ∧
            ((w.applyAll cfg.allocationsDir changes).records = w.records ∨
              (w.applyAll cfg.allocationsDir changes).file = op.apply now w.records)) ∨
          (w.applyAll cfg.allocationsDir changes).records = w.records) := by
    rintro op now hop hr rfl
    refine ⟨op, now, hop, ?_⟩
    unfold StoreOp.apply
    cases (op.decide now w.records).2 <;> simp [persistChanges, hr]
  have terminate : ∀ after target, (w.applyAll cfg.allocationsDir
      (terminateStart w request after target).2).records = w.records ∧ (w.applyAll
        cfg.allocationsDir (terminateStart w request after target).2).file = w.file := by
    intro after target
    rcases terminateStart_cases with ⟨-, h⟩ | ⟨-, h⟩ <;> rw [h] <;> simp
  cases h with
  | observedEnsure ensure is => exact .inr (stored _ _ (by simp [pendingOp, is]) rfl rfl)
  | observedDestroy destroy is => exact .inr (stored _ _ (by simp [pendingOp, is]) rfl rfl)
  | recorded => exact .inr (stored _ _ rfl rfl rfl)
  | @storeFailed phase op now written failure pending =>
    cases written with
    | false => simp
    | true =>
      refine .inr ⟨op, now, pending, ?_⟩
      unfold StoreOp.apply
      cases (op.decide now w.records).2 <;> simp [persistChanges]
  | notMade leaves failed => rcases leaves with rfl | rfl <;> simp
  | abandoned | stopped => exact .inl (terminate _ _)
  | _ => simp

lemma stored {now : String} (h : Moves cfg w request phase (.stored now) next changes) :
    ∃ op, pendingOp request phase = some op ∧
      (w.applyAll cfg.allocationsDir changes).records = op.apply now w.records := by
  have stored : ∀ op : StoreOp, changes = persistChanges true (op.decide now w.records).2 →
      (w.applyAll cfg.allocationsDir changes).records = op.apply now w.records := by
    rintro op rfl
    unfold StoreOp.apply
    cases (op.decide now w.records).2 <;> simp [persistChanges]
  cases h with
  | observedEnsure ensure is => exact ⟨_, by simp [pendingOp, is], stored _ rfl⟩
  | observedDestroy destroy is => exact ⟨_, by simp [pendingOp, is], stored _ rfl⟩
  | recorded => exact ⟨_, rfl, stored _ rfl⟩
  | unparsed parse ended => simp at ended
  | notMade leaves failed => simp [Reply.isFailure] at failed

/-- The unit directories change by the directory of the call's own unit or by a removal. -/
lemma units (h : Moves cfg w request phase r next changes) :
    (w.applyAll cfg.allocationsDir changes).units = w.units ∨
    (∃ args, phase = .making args ∧ ∀ dir,
      (w.applyAll cfg.allocationsDir changes).units.get dir =
        if dir = unitDirKey request.unit then some (w.units.get dir).join else w.units.get dir) ∨
    (∃ pid, phase = .writingPid pid ∧ next = .recording pid ∧ ∀ dir,
      (w.applyAll cfg.allocationsDir changes).units.get dir =
        if dir = unitDirKey request.unit then some (some (pidFileText pid))
        else w.units.get dir) ∨
    (∃ purpose target rest, phase = .removing purpose target rest ∧ r = .done ∧
      next = .removingParent purpose target rest ∧ ∀ dir,
      (w.applyAll cfg.allocationsDir changes).units.get dir =
        if takesAway cfg.allocationsDir target.unit dir then none else w.units.get dir) := by
  have persist : ∀ (b : Bool) (record : Option AllocationRecord),
      (w.applyAll cfg.allocationsDir (persistChanges b record)).units = w.units := by
    rintro b (_ | record) <;> simp [persistChanges]
  have terminate : ∀ after target, (w.applyAll cfg.allocationsDir
      (terminateStart w request after target).2).units = w.units := by
    intro after target
    rcases terminateStart_cases with ⟨-, h⟩ | ⟨-, h⟩ <;> rw [h] <;> simp
  cases h with
  | observedEnsure | observedDestroy | recorded => exact .inl (persist _ _)
  | @storeFailed phase op now written failure pending =>
    cases written
    · exact .inl rfl
    · exact .inl (persist _ _)
  | spawned pos free =>
    exact .inr (.inl ⟨_, rfl, fun dir => World.units_makeUnitDir⟩)
  | notMade leaves failed =>
    rcases leaves with rfl | rfl
    · exact .inl rfl
    · refine .inr (.inl ⟨_, rfl, fun dir => ?_⟩)
      exact World.units_makeUnitDir (d := cfg.allocationsDir)
  | pidWritten made =>
    refine .inr (.inr (.inl ⟨_, rfl, rfl, fun dir => ?_⟩))
    exact World.units_writePidFile (d := cfg.allocationsDir)
  | abandoned | stopped => exact .inl (terminate _ _)
  | removed =>
    exact .inr (.inr (.inr ⟨_, _, _, rfl, rfl, rfl, fun dir => World.units_removeUnitDir⟩))
  | _ => simp

/-- A process is held from the spawn on. -/
lemma held_next {pid : ℕ} (h : Moves cfg w request phase r next changes)
    (hp : next.held = some pid) :
    phase.held = some pid ∨ ∃ args, phase = .making args ∧ r = .spawned pid := by
  cases h with
  | spawned => exact .inr ⟨_, rfl, by simpa [Phase.held] using hp⟩
  | pidWritten | pidNotWritten => exact .inl hp
  | abandoned =>
    rcases terminateStart_cases (w := w) with ⟨-, h⟩ | ⟨-, h⟩ <;> rw [h] at hp
    · exact .inl hp
    · simp at hp
  | stopped =>
    rcases terminateStart_cases (w := w) with ⟨-, h⟩ | ⟨-, h⟩ <;> rw [h] at hp
    · simp [Phase.held] at hp
    · simp at hp
  | waited => exact .inl hp
  | removed | notMade | notListed | notRead => simp [Phase.held] at hp
  | _ => simp at hp

/-- A process is held until it is recorded, has ended, or its ensure failed. -/
lemma held_lost {pid : ℕ} (h : Moves cfg w request phase r next changes)
    (hp : phase.held = some pid) :
    next.held = some pid ∨ (∃ now, phase = .recording pid ∧ r = .stored now) ∨
      (w.applyAll cfg.allocationsDir changes).processes pid = none ∨
      (r.isFailure ∧ phase ≠ .writingPid pid) := by
  cases h with
  | recorded =>
    obtain rfl := Option.some.inj hp
    exact .inr (.inl ⟨_, rfl, rfl⟩)
  | storeFailed pending =>
    exact .inr (.inr (.inr ⟨rfl, by rintro rfl; simp [pendingOp] at pending⟩))
  | pidWritten | pidNotWritten => exact .inl hp
  | abandoned =>
    obtain rfl := Option.some.inj hp
    rcases terminateStart_cases (w := w) with ⟨-, h⟩ | ⟨hd, h⟩ <;> rw [h]
    · exact .inl rfl
    · exact .inr (.inr (.inl (by simpa using hd)))
  | notAbandoned => exact .inr (.inr (.inr ⟨rfl, by simp⟩))
  | @exited after target expired dead =>
    cases after with
    | stop purpose rest => simp [Phase.held] at hp
    | abandon failure =>
      obtain rfl := Option.some.inj hp
      exact .inr (.inr (.inl (by simpa using dead)))
  | @killed after target alive =>
    cases after with
    | stop purpose rest => simp [Phase.held] at hp
    | abandon failure =>
      obtain rfl := Option.some.inj hp
      exact .inr (.inr (.inl (by simp)))
  | waited => exact .inl hp
  | notTerminated => exact .inr (.inr (.inr ⟨rfl, by simp⟩))
  | _ => simp [Phase.held] at hp

/-- Where the references of a call come from: the one a destroy resolves, the own one of an
ensure that was superseded, and those found in the directory. -/
lemma refs_next {ref : String} (h : Moves cfg w request phase r next changes)
    (hr : ref ∈ next.refs) :
    ref ∈ phase.refs ∨
    (∃ destroy now record, request = .destroy destroy ∧ phase = .observing ∧ r = .stored now ∧
      (observeDestroy now w.records request.observeArgs).1 = .observed record ∧
      resolvedRef w.records destroy = some ref) ∨
    (∃ pid, phase = .recording pid ∧ ref = externalRefOfPid request pid) ∨
    (∃ purpose entry entries refs generation pid,
      phase = .reading purpose (entry :: entries) refs ∧ r = .done ∧
      generationOf entry = some generation ∧
      w.readPidFile (request.allocationId, entry) = some pid ∧ w.isAlive pid ∧
      ref = externalRefOf request.allocationId generation pid) := by
  cases h with
  | observedEnsure => simp at hr
  | observedDestroy destroy is =>
    subst is
    rcases afterObserveDestroy_cases _ w.records destroy with
      ⟨_, h, -⟩ | ⟨record, ref', ho, hres, h⟩ | ⟨_, -, -, h⟩ <;> rw [h] at hr
    · simp [Phase.refs] at hr
    · obtain rfl : ref = ref' := by simpa [Phase.refs] using hr
      exact .inr (.inl ⟨destroy, _, record, rfl, rfl, rfl, ho, hres⟩)
    · simp at hr
  | recorded =>
    unfold afterRecordUnit at hr
    split at hr
    · simp at hr
    · exact .inr (.inr (.inl ⟨_, rfl, by simpa using hr⟩))
  | abandoned =>
    rcases terminateStart_cases (w := w) with ⟨-, h⟩ | ⟨-, h⟩ <;> rw [h] at hr
    · simp [Phase.refs, AfterTerminate.rest] at hr
    · dsimp only at hr
      have := mem_refs_afterTerminate hr
      simp [AfterTerminate.rest] at this
  | notAbandoned =>
    have := mem_refs_terminateFailed hr
    simp [AfterTerminate.rest] at this
  | listed => exact absurd (mem_refs_continueReading hr) (by simp)
  | read =>
    rcases mem_readEntry (mem_refs_continueReading hr) with h | ⟨k, p, hk, hp, ha, rfl⟩
    · exact .inl h
    · exact .inr (.inr (.inr ⟨_, _, _, _, k, p, rfl, rfl, hk, hp, ha, rfl⟩))
  | unparsed => exact .inl (List.mem_cons_of_mem _ (mem_refs_stopFailed hr))
  | stopped =>
    rcases terminateStart_cases (w := w) with ⟨-, h⟩ | ⟨-, h⟩ <;> rw [h] at hr
    · exact .inl (List.mem_cons_of_mem _ hr)
    · dsimp only at hr
      exact .inl (List.mem_cons_of_mem _ (mem_refs_afterTerminate hr :))
  | notStopped => exact .inl (List.mem_cons_of_mem _ (mem_refs_terminateFailed hr))
  | exited | killed => exact .inl (mem_refs_afterTerminate hr)
  | notTerminated => exact .inl (mem_refs_terminateFailed hr)
  | waited | removed => exact .inl hr
  | notRemoved | parentNotRemoved => exact .inl (mem_refs_stopFailed hr)
  | parentRemoved =>
    rw [refs_continueStops] at hr
    exact .inl hr
  | _ => simp [Phase.refs] at hr

/-- The unit a call stops is the one its first reference names, or one it started itself. -/
lemma target_next {target : UnitRef} (h : Moves cfg w request phase r next changes)
    (ht : next.target = some target) :
    phase.target = some target ∨
    (∃ purpose ref rest, phase = .stopping purpose ref rest ∧
      parseExternalRef ref = some target) ∨
    (∃ failure pid, phase = .abandoning failure pid ∧ target = ⟨request.unit, pid⟩) := by
  cases h with
  | abandoned =>
    rcases terminateStart_cases (w := w) with ⟨-, h⟩ | ⟨-, h⟩ <;> rw [h] at ht
    · exact .inr (.inr ⟨_, _, rfl, (Option.some.inj ht).symm⟩)
    · dsimp only at ht
      exact .inr (.inr ⟨_, _, rfl, (target_afterTerminate ht).symm⟩)
  | stopped parse =>
    rcases terminateStart_cases (w := w) with ⟨-, h⟩ | ⟨-, h⟩ <;> rw [h] at ht
    · exact .inr (.inl ⟨_, _, _, rfl, parse.trans ht⟩)
    · dsimp only at ht
      exact .inr (.inl ⟨_, _, _, rfl, target_afterTerminate ht ▸ parse⟩)
  | exited | killed => exact .inl (by rw [Phase.target, target_afterTerminate ht])
  | waited | removed => exact .inl ht
  | spawned | pidWritten | pidNotWritten => simp [Phase.target] at ht
  | _ => simp at ht

/-- A phase with a target is none without one. -/
lemma target_ne_none {phase next : Phase} {target : UnitRef} (ht : phase.target = some target)
    (h : phase = next) : next.target ≠ none := by
  rw [← h, ht]
  exact Option.some_ne_none target

/-- A call polls the process of the unit its first reference names, or of its own. -/
lemma terminating_next {after : AfterTerminate} {target : UnitRef}
    (h : Moves cfg w request phase r (.terminating after target) changes) :
    phase = .terminating after target ∨
    (∃ purpose ref rest, phase = .stopping purpose ref rest ∧
      parseExternalRef ref = some target) ∨
    (∃ failure pid, phase = .abandoning failure pid ∧ target = ⟨request.unit, pid⟩) := by
  generalize hn : Phase.terminating after target = next at h
  cases h with
  | abandoned =>
    rcases terminateStart_cases (w := w) with ⟨-, h⟩ | ⟨hd, h⟩ <;> rw [h] at hn
    · obtain ⟨-, rfl⟩ := Phase.terminating.inj hn
      exact .inr (.inr ⟨_, _, rfl, rfl⟩)
    · dsimp only at hn
      exact (afterTerminate_ne_terminating hn.symm).elim
  | stopped parse =>
    rcases terminateStart_cases (w := w) with ⟨-, h⟩ | ⟨hd, h⟩ <;> rw [h] at hn
    · obtain ⟨-, rfl⟩ := Phase.terminating.inj hn
      exact .inr (.inl ⟨_, _, _, rfl, parse⟩)
    · dsimp only at hn
      exact (afterTerminate_ne_terminating hn.symm).elim
  | exited | killed => exact (afterTerminate_ne_terminating hn.symm).elim
  | waited => exact .inl rfl
  | pidWritten | pidNotWritten | removed | storeFailed | spawned | notMade | notListed
  | notRead => simp at hn
  | _ => exact (target_ne_none rfl hn (by simp)).elim

/-- What is about to be removed is the directory of a unit whose process has ended. -/
lemma removing_next {purpose : Purpose} {target : UnitRef} {rest : List String}
    (h : Moves cfg w request phase r (.removing purpose target rest) changes) :
    (w.applyAll cfg.allocationsDir changes).processes target.pid = none := by
  have stops : ∀ {after target'},
      .removing purpose target rest = afterTerminate request after target' → target = target' := by
    intro after target' h
    exact (target_afterTerminate (h ▸ rfl : (afterTerminate request after target').target = _)).symm
  generalize hn : Phase.removing purpose target rest = next at h
  cases h with
  | abandoned | stopped =>
    rcases terminateStart_cases (w := w) with ⟨-, h⟩ | ⟨hd, h⟩ <;> rw [h] at hn ⊢
    · simp at hn
    · dsimp only at hn
      rw [stops hn]; exact hd
  | exited dead => rw [stops hn]; exact dead
  | killed alive => rw [stops hn]; simp
  | pidWritten | pidNotWritten | waited | removed | storeFailed | spawned | notMade | notListed
  | notRead => simp at hn
  | _ => exact (target_ne_none rfl hn (by simp)).elim

/-- A unit is recorded after its pid file is written. -/
lemma recording_next {pid : ℕ} (h : Moves cfg w request phase r (.recording pid) changes) :
    phase = .writingPid pid ∧ ∀ dir, (w.applyAll cfg.allocationsDir changes).units.get dir =
      if dir = unitDirKey request.unit then some (some (pidFileText pid)) else w.units.get dir := by
  have hp : phase = .writingPid pid := by
    rcases h.next_cases with h | ⟨_, _, _, _, -, -, -, -, -, -, h⟩ | ⟨_, _, -, -, h⟩ |
      ⟨pid', rfl, h | ⟨_, h⟩⟩
    · simp [Phase.startsNothing] at h
    · simp at h
    · simp at h
    · obtain rfl : pid = pid' := by simpa using h
      rfl
    · simp at h
  subst hp
  refine ⟨rfl, fun dir => ?_⟩
  cases h with
  | pidWritten made => exact World.units_writePidFile (d := cfg.allocationsDir)

/-! ### What a call does to others -/

lemma signal_mem {unit : UnitId} {pid : ℕ} {sig : Signal}
    (h : Moves cfg w request phase r next changes)
    (hm : Change.signal unit pid sig ∈ changes) :
    w.isAlive pid ∧ ((∃ after, phase = .terminating after ⟨unit, pid⟩) ∨
      (∃ purpose ref rest, phase = .stopping purpose ref rest ∧
        parseExternalRef ref = some ⟨unit, pid⟩) ∨
      (∃ failure, phase = .abandoning failure pid ∧ unit = request.unit)) := by
  have persist : ∀ (b : Bool) (record : Option AllocationRecord),
      Change.signal unit pid sig ∉ persistChanges b record := by
    rintro b (_ | record) <;> simp [persistChanges]
  cases h with
  | observedEnsure | observedDestroy | recorded => exact absurd hm (persist _ _)
  | storeFailed pending => split at hm <;> first | exact absurd hm (persist _ _) | simp at hm
  | notMade leaves failed => rcases leaves with rfl | rfl <;> simp at hm
  | abandoned =>
    rcases terminateStart_cases (w := w) with ⟨ha, h⟩ | ⟨-, h⟩ <;> rw [h] at hm
    · simp only [List.mem_singleton, Change.signal.injEq] at hm
      obtain ⟨rfl, rfl, -⟩ := hm
      exact ⟨ha, .inr (.inr ⟨_, rfl, rfl⟩)⟩
    · simp at hm
  | stopped parse =>
    rcases terminateStart_cases (w := w) with ⟨ha, h⟩ | ⟨-, h⟩ <;> rw [h] at hm
    · simp only [List.mem_singleton, Change.signal.injEq] at hm
      obtain ⟨rfl, rfl, -⟩ := hm
      exact ⟨ha, .inr (.inl ⟨_, _, _, rfl, parse⟩)⟩
    · simp at hm
  | killed alive =>
    simp only [List.mem_singleton, Change.signal.injEq] at hm
    obtain ⟨rfl, rfl, -⟩ := hm
    exact ⟨alive, .inl ⟨_, rfl⟩⟩
  | _ => simp at hm

lemma removeUnitDir_mem {unit : UnitId} (h : Moves cfg w request phase r next changes)
    (hm : Change.removeUnitDir unit ∈ changes) :
    ∃ purpose target rest, phase = .removing purpose target rest ∧ r = .done ∧
      unit = target.unit := by
  have persist : ∀ (b : Bool) (record : Option AllocationRecord),
      Change.removeUnitDir unit ∉ persistChanges b record := by
    rintro b (_ | record) <;> simp [persistChanges]
  cases h with
  | observedEnsure | observedDestroy | recorded => exact absurd hm (persist _ _)
  | storeFailed pending => split at hm <;> first | exact absurd hm (persist _ _) | simp at hm
  | notMade leaves failed => rcases leaves with rfl | rfl <;> simp at hm
  | abandoned | stopped =>
    rcases terminateStart_cases (w := w) with ⟨-, h⟩ | ⟨-, h⟩ <;> rw [h] at hm <;> simp at hm
  | removed => exact ⟨_, _, _, rfl, rfl, by simpa using hm⟩
  | _ => simp at hm

lemma spawn_mem {unit : UnitId} {args : SpawnSidecarProcessArgs} {pid : ℕ}
    (h : Moves cfg w request phase r next changes)
    (hm : Change.spawn unit args pid ∈ changes) :
    phase = .making args ∧ r = .spawned pid ∧ unit = request.unit := by
  have persist : ∀ (b : Bool) (record : Option AllocationRecord),
      Change.spawn unit args pid ∉ persistChanges b record := by
    rintro b (_ | record) <;> simp [persistChanges]
  cases h with
  | observedEnsure | observedDestroy | recorded => exact absurd hm (persist _ _)
  | storeFailed pending => split at hm <;> first | exact absurd hm (persist _ _) | simp at hm
  | spawned pos free =>
    simp only [List.mem_cons, reduceCtorEq, Change.spawn.injEq, List.not_mem_nil, or_false,
      false_or] at hm
    obtain ⟨rfl, rfl, rfl⟩ := hm
    exact ⟨rfl, rfl, rfl⟩
  | notMade leaves failed => rcases leaves with rfl | rfl <;> simp at hm
  | abandoned | stopped =>
    rcases terminateStart_cases (w := w) with ⟨-, h⟩ | ⟨-, h⟩ <;> rw [h] at hm <;> simp at hm
  | _ => simp at hm

end Moves

/-! ### What a step does -/

namespace State

variable {s : State} {c c' : ℕ} {call : Call} {w : World} {p : ℕ} {process : Option Process}

@[simp] lemma calls_setCall :
    (s.setCall c call).calls = Function.update s.calls c (some call) := rfl
@[simp] lemma world_setCall : (s.setCall c call).world = s.world := rfl
@[simp] lemma inFlightEnsures_setCall :
    (s.setCall c call).inFlightEnsures = s.inFlightEnsures := rfl
@[simp] lemma calls_setWorld : (s.setWorld w).calls = s.calls := rfl
@[simp] lemma world_setWorld : (s.setWorld w).world = w := rfl
@[simp] lemma inFlightEnsures_setWorld : (s.setWorld w).inFlightEnsures = s.inFlightEnsures := rfl
@[simp] lemma calls_setProcess : (s.setProcess p process).calls = s.calls := rfl
@[simp] lemma inFlightEnsures_setProcess :
    (s.setProcess p process).inFlightEnsures = s.inFlightEnsures := rfl

end State

namespace Happens

variable {s t : State} {e : Event} {c : ℕ} {call : Call}

/-- A process that runs after a step ran before it, or was spawned, or came from elsewhere. -/
lemma process {pid : ℕ} {q : Process} (h : Happens cfg s e t)
    (hq : t.world.processes pid = some q) :
    s.world.processes pid = some q ∨
    (s.world.processes pid = none ∧ 0 < pid ∧ ∃ c request args, e = .reply c (.spawned pid) ∧
      s.calls c = some ⟨request, .making args⟩ ∧ t.calls c = some ⟨request, .writingPid pid⟩ ∧
      q = .sidecar request.unit) ∨
    (s.world.processes pid = none ∧ 0 < pid ∧ e = .start pid ∧ q = .foreign) := by
  cases h with
  | @replied c request phase r next changes call moves =>
    simp only [State.world_setWorld] at hq
    rcases moves.processes with h | ⟨args, pid', rfl, rfl, rfl, hpos, hfree, h⟩ |
      ⟨after, target, -, -, -, h⟩ <;> rw [h] at hq
    · exact .inl hq
    · by_cases hp : pid = pid'
      · subst hp
        rw [Function.update_self, Option.some.injEq] at hq
        exact .inr (.inl ⟨hfree, hpos, c, request, args, rfl, call, by simp, hq.symm⟩)
      · rw [Function.update_of_ne hp] at hq
        exact .inl hq
    · by_cases hp : pid = target.pid
      · simp [hp] at hq
      · rw [Function.update_of_ne hp] at hq
        exact .inl hq
  | @exited pid' alive =>
    by_cases hp : pid = pid'
    · simp [State.setProcess, hp] at hq
    · simp only [State.setProcess, Function.update_of_ne hp] at hq
      exact .inl hq
  | @started pid' pos free =>
    by_cases hp : pid = pid'
    · subst hp
      simp only [State.setProcess, Function.update_self, Option.some.injEq] at hq
      exact .inr (.inr ⟨free, pos, rfl, hq.symm⟩)
    · simp only [State.setProcess, Function.update_of_ne hp] at hq
      exact .inl hq
  | _ => exact .inl hq

/-- A sidecar that runs after a step ran before it or was spawned by it. -/
lemma sidecar {pid : ℕ} {unit : UnitId} (h : Happens cfg s e t)
    (hq : t.world.processes pid = some (.sidecar unit)) :
    s.world.processes pid = some (.sidecar unit) ∨
    (s.world.processes pid = none ∧ 0 < pid ∧ ∃ c request args, e = .reply c (.spawned pid) ∧
      s.calls c = some ⟨request, .making args⟩ ∧ t.calls c = some ⟨request, .writingPid pid⟩ ∧
      unit = request.unit) := by
  rcases h.process hq with h | ⟨hn, hp, c, request, args, he, hc, ht, hu⟩ | ⟨-, -, -, hu⟩
  · exact .inl h
  · exact .inr ⟨hn, hp, c, request, args, he, hc, ht, by simpa using hu⟩
  · simp at hu

/-- No call outlives a restart. -/
lemma ne_restart {call : Call} (h : Happens cfg s e t) (hc : t.calls c = some call) :
    e ≠ .restart := by
  rintro rfl
  cases h
  simp [State.restart] at hc

/-- A call after a step is as it was, or has not done anything yet or any more, or moved. -/
lemma call_cases {next : Phase} (h : Happens cfg s e t)
    (hc : t.calls c = some ⟨request, next⟩) :
    s.calls c = some ⟨request, next⟩ ∨ (next.isInert ∧ next ≠ .returned .confirmed) ∨
    ∃ phase r changes, e = .reply c r ∧ s.calls c = some ⟨request, phase⟩ ∧
      Moves cfg s.world request phase r next changes ∧
      t.world = s.world.applyAll cfg.allocationsDir changes := by
  have new : ∀ {s' : State} {c' : ℕ} {call : Call},
      Function.update s'.calls c' (some call) c = some ⟨request, next⟩ →
      (call.phase.isInert ∧ call.phase ≠ .returned .confirmed) →
      s'.calls c = some ⟨request, next⟩ ∨ (next.isInert ∧ next ≠ .returned .confirmed) := by
    intro s' c' call hc hi
    by_cases hcc : c = c'
    · subst hcc
      obtain rfl := by simpa using hc
      exact .inr hi
    · rw [Function.update_of_ne hcc] at hc
      exact .inl hc
  cases h with
  | destroyCalled =>
    rcases new hc
      ⟨isInert_startDestroy _, by dsimp only; unfold startDestroy; split <;> simp⟩ with h | h
    exacts [.inl h, .inr (.inl h)]
  | ensureChained =>
    rcases new hc ⟨rfl, by simp⟩ with h | h
    exacts [.inl h, .inr (.inl h)]
  | ensureCalled =>
    rcases new hc ⟨isInert_startEnsure _, startEnsure_ne_confirmed⟩ with h | h
    exacts [.inl h, .inr (.inl h)]
  | @resumed c' request' on other result next' call settled flight next_eq =>
    have hi : next'.isInert ∧ next' ≠ .returned .confirmed := by
      subst next_eq
      split
      · rename_i hthrown
        exact ⟨rfl, by rintro ⟨⟩; simp [Result.hasThrown] at hthrown⟩
      · exact ⟨isInert_startEnsure _, startEnsure_ne_confirmed⟩
    rcases new hc hi with h | h
    exacts [.inl h, .inr (.inl h)]
  | @replied c' request' phase r next' changes call moves =>
    simp only [State.calls_setWorld, State.calls_setCall] at hc
    by_cases hcc : c = c'
    · subst hcc
      rw [Function.update_self, Option.some.injEq, Call.mk.injEq] at hc
      obtain ⟨rfl, rfl⟩ := hc
      exact .inr (.inr ⟨phase, r, changes, rfl, call, moves, rfl⟩)
    · rw [Function.update_of_ne hcc] at hc
      exact .inl hc
  | restarted => simp [State.restart] at hc
  | _ => exact .inl hc

lemma call_of {next : Phase} (h : Happens cfg s e t) (hc : t.calls c = some ⟨request, next⟩) :
    s.calls c = some ⟨request, next⟩ ∨ next.isInert ∨
    ∃ phase r changes, e = .reply c r ∧ s.calls c = some ⟨request, phase⟩ ∧
      Moves cfg s.world request phase r next changes ∧
      t.world = s.world.applyAll cfg.allocationsDir changes :=
  (h.call_cases hc).imp_right (Or.imp_left And.left)

/-- A call is made once, and keeps its request. -/
lemma request_of (h : Happens cfg s e t) (hc : t.calls c = some ⟨request, phase⟩) :
    (∃ phase', s.calls c = some ⟨request, phase'⟩) ∨
      (e = .call c request ∧ s.calls c = none) := by
  have new : ∀ {c' : ℕ} {call : Call}, Function.update s.calls c' (some call) c =
      some ⟨request, phase⟩ → (c = c' ∧ call = ⟨request, phase⟩) ∨
        s.calls c = some ⟨request, phase⟩ := by
    intro c' call hc
    by_cases hcc : c = c'
    · subst hcc
      exact .inl ⟨rfl, by simpa using hc⟩
    · rw [Function.update_of_ne hcc] at hc
      exact .inr hc
  cases h with
  | destroyCalled none | ensureChained none | ensureCalled none =>
    rcases new hc with ⟨rfl, heq⟩ | h
    · obtain ⟨rfl, rfl⟩ := Call.mk.inj heq
      exact .inr ⟨rfl, none⟩
    · exact .inl ⟨phase, h⟩
  | resumed call | replied call =>
    rcases new hc with ⟨rfl, heq⟩ | h
    · obtain ⟨rfl, rfl⟩ := Call.mk.inj heq
      exact .inl ⟨_, call⟩
    · exact .inl ⟨phase, h⟩
  | restarted => simp [State.restart] at hc
  | _ => exact .inl ⟨phase, hc⟩

/-- A call that executes goes on as it was, or moves, unless the hub crashes. -/
lemma call_next (h : Happens cfg s e t) (hc : s.calls c = some ⟨request, phase⟩)
    (hp : phase.isExecuting) :
    e = .restart ∨ t.calls c = some ⟨request, phase⟩ ∨
    ∃ r next changes, e = .reply c r ∧ t.calls c = some ⟨request, next⟩ ∧
      Moves cfg s.world request phase r next changes ∧
      t.world = s.world.applyAll cfg.allocationsDir changes := by
  have keep : ∀ {c' : ℕ} {call : Call}, c ≠ c' →
      Function.update s.calls c' (some call) c = some ⟨request, phase⟩ :=
    fun hcc => by rw [Function.update_of_ne hcc, hc]
  cases h with
  | destroyCalled new | ensureChained new | ensureCalled new =>
    exact .inr (.inl (keep (by rintro rfl; simp [hc] at new)))
  | resumed call =>
    refine .inr (.inl (keep ?_))
    rintro rfl
    rw [hc, Option.some.injEq, Call.mk.injEq] at call
    simp [call.2, Phase.isExecuting] at hp
  | @replied c' request' phase' r next changes call moves =>
    by_cases hcc : c = c'
    · subst hcc
      obtain ⟨rfl, rfl⟩ := by simpa using hc.symm.trans call
      exact .inr (.inr ⟨r, next, changes, rfl, by simp, moves, rfl⟩)
    · exact .inr (.inl (keep hcc))
  | restarted => exact .inl rfl
  | _ => exact .inr (.inl hc)

/-- A call that has returned stays returned. -/
lemma returned_next {result : Result} (h : Happens cfg s e t)
    (hc : s.calls c = some ⟨request, .returned result⟩) (hc' : t.calls c = some ⟨request, phase⟩) :
    phase = .returned result := by
  have keep : ∀ {c' : ℕ} {call : Call}, c ≠ c' →
      Function.update s.calls c' (some call) c = some ⟨request, phase⟩ →
      phase = .returned result := by
    intro c' call hcc hc'
    rw [Function.update_of_ne hcc, hc] at hc'
    simpa using hc'.symm
  cases h with
  | destroyCalled new | ensureChained new | ensureCalled new =>
    exact keep (by rintro rfl; simp [hc] at new) hc'
  | resumed call =>
    refine keep ?_ hc'
    rintro rfl
    simp [hc] at call
  | @replied c' request' phase' r next changes call moves =>
    refine keep ?_ hc'
    rintro rfl
    rw [hc, Option.some.injEq, Call.mk.injEq] at call
    simpa [← call.2, Phase.isExecuting] using moves.isExecuting
  | restarted => simp [State.restart] at hc'
  | _ => simpa [hc] using hc'.symm

/-- What a step does to the unit directories. -/
lemma units (h : Happens cfg s e t) :
    t.world.units = s.world.units ∨
    (∃ c request args, s.calls c = some ⟨request, .making args⟩ ∧ ∀ dir,
      t.world.units.get dir = if dir = unitDirKey request.unit then
        some (s.world.units.get dir).join else s.world.units.get dir) ∨
    (∃ c request pid, s.calls c = some ⟨request, .writingPid pid⟩ ∧
      t.calls c = some ⟨request, .recording pid⟩ ∧ ∀ dir,
      t.world.units.get dir = if dir = unitDirKey request.unit then
        some (some (pidFileText pid)) else s.world.units.get dir) ∨
    (∃ c request purpose target rest, e = .reply c .done ∧
      s.calls c = some ⟨request, .removing purpose target rest⟩ ∧
      t.calls c = some ⟨request, .removingParent purpose target rest⟩ ∧ ∀ dir,
      t.world.units.get dir = if takesAway cfg.allocationsDir target.unit dir then none
        else s.world.units.get dir) := by
  cases h with
  | @replied c request phase r next changes call moves =>
    rcases moves.units with h | ⟨args, rfl, h⟩ | ⟨pid, rfl, rfl, h⟩ |
      ⟨purpose, target, rest, rfl, rfl, rfl, h⟩
    · exact .inl h
    · exact .inr (.inl ⟨c, request, args, call, h⟩)
    · exact .inr (.inr (.inl ⟨c, request, pid, call, by simp, h⟩))
    · exact .inr (.inr (.inr ⟨c, request, purpose, target, rest, rfl, call, by simp, h⟩))
  | _ => exact .inl rfl

/-- A pid file goes on naming its process while nobody writes another one and its directory is
spared. -/
lemma readPidFile_kept (h : Happens cfg s e t) {unit : UnitId} {pid : ℕ}
    (hfile : s.world.readPidFile (unitDirKey unit) = some pid)
    (hwriting : ∀ c request pid', s.calls c = some ⟨request, .writingPid pid'⟩ →
      request.unit = unit → pid' = pid)
    (hspared : ∀ c request purpose target rest, e = .reply c .done →
      s.calls c = some ⟨request, .removing purpose target rest⟩ →
      s.world.units.get (unitDirKey unit) ≠ none →
      ¬ takesAway cfg.allocationsDir target.unit (unitDirKey unit)) :
    t.world.readPidFile (unitDirKey unit) = some pid := by
  have hpos := World.pos_of_readPidFile hfile
  simp only [World.readPidFile] at hfile ⊢
  rcases h.units with hu | ⟨c, request, args, hcall, hu⟩ | ⟨c, request, pid', hcall, -, hu⟩ |
    ⟨c, request, purpose, target, rest, he, hcall, -, hu⟩
  · rw [hu, hfile]
  · rw [hu]
    split
    · simpa using hfile
    · exact hfile
  · rw [hu]
    split
    · next heq =>
      obtain rfl := hwriting c request pid' hcall (World.unitDirKey_injective heq).symm
      simp [pidOfText_pidFileText hpos]
    · exact hfile
  · have hsome : s.world.units.get (unitDirKey unit) ≠ none := by
      intro hnone
      simp [hnone] at hfile
    rw [hu, if_neg (hspared c request purpose target rest he hcall hsome)]
    exact hfile

/-- What a pid file names for a unit it named before, or the step has just written it. -/
lemma readPidFile_of (h : Happens cfg s e t) {target : UnitRef} {entry : String}
    (hgen : generationOf entry = some target.unit.generation)
    (hpid : t.world.readPidFile (target.unit.allocationId, entry) = some target.pid) :
    s.world.readPidFile (target.unit.allocationId, entry) = some target.pid ∨
      ∃ c request, s.calls c = some ⟨request, .writingPid target.pid⟩ ∧
        target.unit = request.unit := by
  simp only [World.readPidFile] at hpid ⊢
  rcases h.units with hu | ⟨c, request, args, hcall, hu⟩ | ⟨c, request, pid, hcall, -, hu⟩ |
    ⟨c, request, purpose, target', rest, -, hcall, -, hu⟩ <;> rw [hu] at hpid
  · exact .inl hpid
  · left
    split at hpid
    · simpa using hpid
    · exact hpid
  · split at hpid
    · next hkey =>
      obtain ⟨ha, rfl⟩ := Prod.mk.inj hkey
      have hp : target.pid = pid := eq_of_pidOfText hpid
      have hg : target.unit.generation = request.generation := eq_of_generationOf hgen
      rw [hp]
      exact .inr ⟨c, request, hcall, congrArg₂ UnitId.mk ha hg⟩
    · exact .inl hpid
  · split at hpid
    · simp at hpid
    · exact .inl hpid

/-- A destroy observes from its call on. -/
lemma observing_of {destroy : DestroySidecarRequest} (h : Happens cfg s e t)
    (hc : t.calls c = some ⟨.destroy destroy, .observing⟩) :
    s.calls c = some ⟨.destroy destroy, .observing⟩ ∨ e = .call c (.destroy destroy) := by
  rcases h.request_of hc with ⟨phase, hc'⟩ | ⟨he, -⟩
  · have new : ∀ {c' : ℕ} {request : EnsureSidecarRequest} {next : Phase},
        Function.update s.calls c' (some ⟨.ensure request, next⟩) c =
          some ⟨.destroy destroy, .observing⟩ →
        s.calls c = some ⟨.destroy destroy, .observing⟩ := by
      intro c' request next hc
      by_cases hcc : c = c'
      · simp [hcc] at hc
      · rwa [Function.update_of_ne hcc] at hc
    cases h with
    | @destroyCalled c' request none =>
      have hcc : c ≠ c' := by rintro rfl; simp [hc'] at none
      exact .inl (by simpa [Function.update_of_ne hcc] using hc)
    | ensureChained | ensureCalled | resumed => exact .inl (new hc)
    | @replied c' request phase' r next changes call moves =>
      simp only [State.calls_setWorld, State.calls_setCall] at hc
      by_cases hcc : c = c'
      · subst hcc
        obtain ⟨rfl, rfl⟩ := by simpa using hc
        rcases moves.next_cases with h | ⟨_, _, _, _, -, -, -, -, -, -, h⟩ | ⟨_, _, -, -, h⟩ |
          ⟨_, -, h | ⟨_, h⟩⟩ <;> simp [Phase.startsNothing] at h
      · rw [Function.update_of_ne hcc] at hc
        exact .inl hc
    | restarted => simp [State.restart] at hc
    | _ => exact .inl hc
  · exact .inr he

/-- A spawned process gets a pid that was free. -/
lemma free_of_spawned {pid : ℕ} (h : Happens cfg s (.reply c (.spawned pid)) t) :
    s.world.processes pid = none := by
  cases h with
  | replied call moves =>
    cases moves with
    | spawned pos free => exact free
    | notMade leaves failed => simp [Reply.isFailure] at failed
    | unparsed parse ended => simp at ended

/-- Where a recorded reference comes from, in memory and in the state file. -/
lemma externalRef_of {a : String} {record : AllocationRecord} {ref : String}
    (h : Happens cfg s e t) (hr : t.world.records.get a = some record ∨
      t.world.file.get a = some record) (href : record.externalRef = some ref) :
    (∃ old, (s.world.records.get a = some old ∨ s.world.file.get a = some old) ∧
      old.externalRef = some ref ∧ old.generation ≤ record.generation) ∨
    ∃ c request pid, s.calls c = some ⟨request, .recording pid⟩ ∧ a = request.allocationId ∧
      ref = externalRefOfPid request pid ∧ record.generation = request.generation := by
  cases h with
  | @replied c request phase r next changes call moves =>
    simp only [State.world_setWorld] at hr
    have from_op : ∀ {op : StoreOp} {now : String}, pendingOp request phase = some op →
        (op.apply now s.world.records).get a = some record →
        (∃ old, (s.world.records.get a = some old ∨ s.world.file.get a = some old) ∧
          old.externalRef = some ref ∧ old.generation ≤ record.generation) ∨
        ∃ c request pid, s.calls c = some ⟨request, .recording pid⟩ ∧
          a = request.allocationId ∧ ref = externalRefOfPid request pid ∧
          record.generation = request.generation := by
      intro op now hop hget
      rcases externalRef_apply hget href with ⟨old, h, he, hle⟩ | ⟨args, rfl, rfl, rfl, hg⟩
      · exact .inl ⟨old, .inl h, he, hle⟩
      · cases phase with
        | recording pid =>
          obtain rfl : recordUnitArgs request pid = args := by simpa [pendingOp] using hop
          exact .inr ⟨c, request, pid, call, rfl, rfl, hg⟩
        | observing => cases request <;> simp [pendingOp] at hop
        | _ => simp [pendingOp] at hop
    rcases moves.records with ⟨h, h'⟩ | ⟨op, now, hop, hfile, hrec⟩
    · rw [h, h'] at hr
      exact .inl ⟨record, hr, href, le_rfl⟩
    · rcases hr with hr | hr
      · rcases hrec with ⟨-, h, -⟩ | h <;> rw [h] at hr
        exacts [from_op hop hr, .inl ⟨record, .inl hr, href, le_rfl⟩]
      · rcases hfile with h | h <;> rw [h] at hr
        exacts [.inl ⟨record, .inr hr, href, le_rfl⟩, from_op hop hr]
  | restarted =>
    simp only [State.restart, or_self] at hr
    exact .inl ⟨record, .inr hr, href, le_rfl⟩
  | _ => exact .inl ⟨record, hr, href, le_rfl⟩

/-- The record of an allocation changes by the store operation of a call on it. -/
lemma records_of (h : Happens cfg s e t) (he : e ≠ .restart) (a : String) :
    t.world.records.get a = s.world.records.get a ∨
    ∃ c request phase now next changes, e = .reply c (.stored now) ∧
      s.calls c = some ⟨request, phase⟩ ∧ request.allocationId = a ∧
      t.calls c = some ⟨request, next⟩ ∧
      Moves cfg s.world request phase (.stored now) next changes ∧
      t.world = s.world.applyAll cfg.allocationsDir changes := by
  cases h with
  | @replied c request phase r next changes call moves =>
    simp only [State.world_setWorld]
    rcases moves.records with ⟨h, -⟩ | ⟨op, now, hop, -, ⟨rfl, h, -⟩ | h⟩
    · exact .inl (by rw [h])
    · by_cases ha : request.allocationId = a
      · exact .inr ⟨c, request, phase, now, next, changes, rfl, call, ha, by simp, moves, rfl⟩
      · have hk : op.allocationId = request.allocationId := by
          cases phase with
          | observing => cases request <;> · obtain rfl := Option.some.inj hop; rfl
          | recording pid => obtain rfl := Option.some.inj hop; rfl
          | _ => simp [pendingOp] at hop
        left
        rw [h, get_apply_of_ne (by rw [hk]; exact fun heq => ha heq.symm)]
    · exact .inl (by rw [h])
  | restarted => exact absurd rfl he
  | _ => exact .inl rfl

/-- Only a restart takes records back. -/
lemma evolves (h : Happens cfg s e t) (he : e ≠ .restart) :
    Evolves s.world.records t.world.records := by
  cases h with
  | replied call moves =>
    simp only [State.world_setWorld]
    rcases moves.records with ⟨h, -⟩ | ⟨op, now, -, -, ⟨-, h, -⟩ | h⟩ <;> rw [h]
    · exact .refl _
    · exact evolves_apply now _ op
    · exact .refl _
  | restarted => exact absurd rfl he
  | _ => exact .refl _

/-- The state file never falls behind the records in memory. -/
lemma evolves_file (h : Happens cfg s e t) (hf : Evolves s.world.records s.world.file) :
    Evolves t.world.records t.world.file := by
  cases h with
  | replied call moves =>
    simp only [State.world_setWorld]
    rcases moves.records with ⟨h, h'⟩ | ⟨op, now, -, h', ⟨-, h, hw⟩ | h⟩
    · rw [h, h']; exact hf
    · rcases hw with hw | hw
      · rcases h' with h' | h' <;> rw [hw, h']
        exacts [hf, evolves_apply now _ op]
      · rw [h, hw]; exact .refl _
    · rw [h]
      rcases h' with h' | h' <;> rw [h']
      exacts [hf, evolves_apply now _ op]
  | restarted => exact .refl _
  | _ => exact hf

end Happens

end Workbench.Provisioner
