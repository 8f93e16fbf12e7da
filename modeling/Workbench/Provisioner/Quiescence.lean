import Workbench.Provisioner.Orderly

/-!
What is left of an allocation when all calls on it have settled.

Every unit that runs is attended to: it is the recorded one, or a call still holds it or will
stop it, or an ensure that has replaced its record will look for it once its own unit is
recorded. When the calls have settled only the first is left.
-/

namespace Workbench.Provisioner

open Workbench.Lib Workbench.Lib.Transition

def UnitRef.text (target : UnitRef) : String :=
  externalRefOf target.unit.allocationId target.unit.generation target.pid

/-- The record of an allocation is that of a unit. -/
def Records.IsOf (records : Records) (target : UnitRef) : Prop :=
  ∃ r, records.get target.unit.allocationId = some r ∧ r.generation = target.unit.generation ∧
    r.desiredState = .ensured ∧ r.externalRef = some target.text

/-- The record of an allocation is that of a start which has no unit yet, and not of the unit's
generation. -/
def Records.Awaits (records : Records) (generation : ℕ) (target : UnitRef) : Prop :=
  target.unit.generation ≠ generation ∧ ∃ r,
    records.get target.unit.allocationId = some r ∧ r.generation = generation ∧
      r.desiredState = .ensured ∧ r.externalRef = none

/-- A call holds a unit, will stop it, or will look for it after its own start. -/
def Phase.Attends (records : Records) (request : Request) (target : UnitRef) : Phase → Prop
  | .making _ => records.Awaits request.generation target
  | .writingPid pid | .recording pid =>
    (target.unit.generation = request.generation ∧ target.pid = pid) ∨
      records.Awaits request.generation target
  | .listing purpose => purpose ≠ .sweep target.text
  | .reading purpose entries refs => purpose ≠ .sweep target.text ∧
      (unitDirName target.unit.generation ∈ entries ∨ target.text ∈ refs)
  | .stopping _ ref rest => target.text ∈ ref :: rest
  | .terminating after target' => target = target' ∨ target.text ∈ after.rest
  | .removing _ _ rest | .removingParent _ _ rest => target.text ∈ rest
  | _ => False

/-- A unit is the recorded one, or a call of its allocation attends to it. -/
def State.Attended (s : State) (target : UnitRef) : Prop :=
  s.world.records.IsOf target ∨ ∃ c request phase, s.calls c = some ⟨request, phase⟩ ∧
    request.allocationId = target.unit.allocationId ∧
      phase.Attends s.world.records request target

section

variable {cfg : Config} {w : World} {request : Request} {phase next : Phase} {r : Reply}
  {changes : List Change} {target target' : UnitRef} {purpose : Purpose} {rest refs : List String}
  {m m' : Records}

lemma attends_continueStops (h : target.text ∈ rest) :
    (continueStops request purpose rest).Attends m request target := by
  cases rest with
  | nil => simp at h
  | cons ref rest => exact h

lemma mem_select (h : target.text ∈ refs) (hp : purpose ≠ .sweep target.text) :
    target.text ∈ select purpose refs := by
  cases purpose with
  | sweep keep =>
    refine List.mem_filter.mpr ⟨h, ?_⟩
    simpa using fun heq : target.text = keep => hp (heq ▸ rfl)
  | superseded => exact h
  | destroy => exact List.mem_eraseDups.mpr h

lemma attends_afterTerminate (hm : matchesAllocationIdPattern target'.unit.allocationId)
    (h : target.text ∈ rest) :
    (afterTerminate request (.stop purpose rest) target').Attends m request target := by
  rw [afterTerminate, if_pos hm]
  exact h

/-- Attending does not depend on the record but for a start that awaits its unit. -/
lemma Phase.Attends.of_records (h : phase.Attends m request target) :
    phase.Attends m' request target ∨ (phase.isStarting ∧ m.Awaits request.generation target) := by
  cases phase with
  | making args => exact .inr ⟨rfl, h⟩
  | writingPid pid | recording pid => exact h.imp .inl fun h => ⟨rfl, h⟩
  | _ => exact .inl h

lemma Phase.Attends.of_awaits (h : m.Awaits request.generation target) (hp : phase.isStarting)
    (ha : ¬ phase.isAbandoning) : phase.Attends m request target := by
  cases phase with
  | making args => exact h
  | writingPid pid | recording pid => exact .inr h
  | abandoning failure pid => simp [isAbandoning] at ha
  | terminating after target' =>
    cases after <;> simp [isAbandoning, isStarting, held] at ha hp
  | _ => simp [isStarting, held] at hp

lemma Phase.Attends.isExecuting (h : phase.Attends m request target) : phase.isExecuting := by
  cases phase with
  | chained on | returned result => exact h.elim
  | _ => rfl

lemma Records.IsOf.congr (h : m.IsOf target)
    (heq : m'.get target.unit.allocationId = m.get target.unit.allocationId) : m'.IsOf target := by
  rwa [IsOf, heq]

lemma Records.Awaits.congr {generation : ℕ} (h : m.Awaits generation target)
    (heq : m'.get target.unit.allocationId = m.get target.unit.allocationId) :
    m'.Awaits generation target := by
  rwa [Awaits, heq]

/-- `recordUnit` takes the unit, or it is stopped; an ensure that awaited its own unit goes on
to look for the others. -/
lemma attends_recorded {pid : ℕ} {now : String}
    (h : (Phase.recording pid).Attends m request target)
    (ha : request.allocationId = target.unit.allocationId)
    (hm : matchesAllocationIdPattern request.allocationId) (hpid : 0 < pid)
    (hpos : 0 < target.pid) :
    (afterRecordUnit request pid (recordUnit now m (recordUnitArgs request pid)).1).Attends
        ((StoreOp.recordUnit (recordUnitArgs request pid)).apply now m) request target ∨
      ((StoreOp.recordUnit (recordUnitArgs request pid)).apply now m).IsOf target := by
  have hs := recordUnit_spec now m (recordUnitArgs request pid)
  simp only [StoreOp.apply, StoreOp.decide, Prod.map_snd, id_eq]
  generalize recordUnit now m (recordUnitArgs request pid) = d at hs
  cases hs with
  | no other =>
    left
    rcases h with ⟨hg, rfl⟩ | ⟨-, r, hr, hg, hd, -⟩
    · refine attends_continueStops (List.mem_singleton.mpr ?_)
      rw [UnitRef.text, externalRefOfPid, ha, hg]
    · rcases other r (by rw [← hr, ← ha]; rfl) with hne | hd'
      · exact absurd hg hne
      · simp [hd] at hd'
  | yes r get generation state =>
    have hk : r.allocationId = request.allocationId := Records.allocationId_of_get get
    rcases h with ⟨hg, rfl⟩ | ⟨hne, -⟩
    · refine .inr ⟨unitRecord now r (externalRefOfPid request target.pid), ?_,
        generation.trans hg.symm, state, ?_⟩
      · simp [Records.get_put, unitRecord, hk, ← ha, recordUnitArgs]
      · simp [unitRecord, UnitRef.text, externalRefOfPid, ha, hg]
    · left
      rw [afterRecordUnit, if_pos rfl, enterListing, if_pos hm]
      intro heq
      have heq := Purpose.sweep.inj heq
      rw [UnitRef.text, externalRefOfPid, ← ha] at heq
      exact hne (externalRefOf_inj hm hpos hpid heq.symm).1

/-- `observeEnsure` leaves the record of a unit there, or lets a start of a newer one through. -/
lemma isOf_observeEnsure (args : ObserveArgs) {now : String} (h : m.IsOf target)
    (ha : args.allocationId = target.unit.allocationId) :
    ((StoreOp.observeEnsure args).apply now m).IsOf target ∨
      ((StoreOp.observeEnsure args).apply now m).Awaits args.generation target ∧
        ∃ record, (observeEnsure now m args).1 = .observed record ∧ record.externalRef = none := by
  have hs := observeEnsure_spec now m args
  simp only [StoreOp.apply, StoreOp.decide, Prod.map_snd, id_eq]
  generalize observeEnsure now m args = d at hs
  cases hs with
  | refused | present => exact .inl h
  | fresh older =>
    obtain ⟨r, hr, hg, -⟩ := h
    have hlt := (older r (ha ▸ hr)).2
    refine .inr ⟨⟨by omega, ensuredRecord now args, ?_, rfl, rfl, rfl⟩, _, rfl, rfl⟩
    simp [Records.get_put, ensuredRecord, ha]

/-- `observeDestroy` leaves the record of a unit there, or hands its reference over. -/
lemma isOf_observeDestroy (args : ObserveArgs) {now : String} (h : m.IsOf target)
    (ha : args.allocationId = target.unit.allocationId) :
    ((StoreOp.observeDestroy args).apply now m).IsOf target ∨ ∃ record,
      (observeDestroy now m args).1 = .observed record ∧ record.externalRef = some target.text := by
  have hs := observeDestroy_spec now m args
  simp only [StoreOp.apply, StoreOp.decide, Prod.map_snd, id_eq]
  generalize observeDestroy now m args = d at hs
  cases hs with
  | refused | present => exact .inl h
  | fresh ref missing older =>
    obtain ⟨r, hr, -, -, hx⟩ := h
    obtain ⟨-, -, rfl⟩ := older r (ha ▸ hr)
    exact .inr ⟨_, rfl, hx⟩

/-- It leaves the record of a start there, or has no reference to hand over. -/
lemma awaits_observeDestroy (args : ObserveArgs) {now : String} {generation : ℕ}
    (h : m.Awaits generation target) (ha : args.allocationId = target.unit.allocationId) :
    ((StoreOp.observeDestroy args).apply now m).Awaits generation target ∨ ∃ record,
      (observeDestroy now m args).1 = .observed record ∧ record.externalRef = none := by
  have hs := observeDestroy_spec now m args
  simp only [StoreOp.apply, StoreOp.decide, Prod.map_snd, id_eq]
  generalize observeDestroy now m args = d at hs
  cases hs with
  | refused | present => exact .inl h
  | fresh ref missing older =>
    obtain ⟨-, r, hr, -, -, hx⟩ := h
    obtain ⟨-, -, rfl⟩ := older r (ha ▸ hr)
    exact .inr ⟨_, rfl, hx⟩

/-- **A reply keeps a call attending** to a unit that runs on, or the unit is recorded. -/
lemma attends_moves (hm : Moves cfg w request phase r next changes) (hr : r.isFailure = false)
    (h : phase.Attends w.records request target)
    (ha : request.allocationId = target.unit.allocationId) (hs : Startable cfg request.allocationId)
    (hpos : 0 < target.pid) (hgen : 0 < target.unit.generation)
    (hlive : (w.applyAll cfg.allocationsDir changes).processes target.pid =
      some (.sidecar target.unit)) (hlive' : w.processes target.pid = some (.sidecar target.unit))
    (hfile : w.readPidFile (unitDirKey target.unit) = some target.pid)
    (hheld : ∀ pid, phase.held = some pid → 0 < pid)
    (hrefs : ∀ ref ∈ phase.refs, (parseExternalRef ref).isSome)
    (hown : ∀ target', phase.Names request target' →
      target'.unit.allocationId = request.allocationId) :
    next.Attends (w.applyAll cfg.allocationsDir changes).records request target ∨
      (w.applyAll cfg.allocationsDir changes).records.IsOf target := by
  have hparse : parseExternalRef target.text = some target :=
    parseExternalRef_externalRefOf (ha ▸ hs.1) hpos
  have halive : w.isAlive target.pid := by simp [World.isAlive, hlive']
  have hstored : ∀ now, r = .stored now → ∃ op, pendingOp request phase = some op ∧
      (w.applyAll cfg.allocationsDir changes).records = op.apply now w.records := by
    rintro now rfl
    exact hm.stored
  -- a target that has ended is not the unit's process
  have after : ∀ {purpose rest target'}, phase.Names request target' → target ≠ target' →
      target = target' ∨ target.text ∈ rest → (afterTerminate request (.stop purpose rest)
        target').Attends (w.applyAll cfg.allocationsDir changes).records request target := by
    intro purpose rest target' hn hne h
    exact attends_afterTerminate (by rw [hown target' hn]; exact hs.1) (h.resolve_left hne)
  cases hm with
  | recorded =>
    obtain ⟨op, hop, hrec⟩ := hstored _ rfl
    obtain rfl := Option.some.inj hop
    rw [hrec]
    exact attends_recorded h ha hs.1 (hheld _ rfl) hpos
  | @spawned args pid pos free =>
    refine .inl (.inr ?_)
    rw [show (w.applyAll cfg.allocationsDir [.makeUnitDir request.unit,
      .spawn request.unit args pid]).records = w.records by simp]
    exact h
  | @pidWritten pid made =>
    left
    rw [show (w.applyAll cfg.allocationsDir [.writePidFile request.unit pid]).records =
      w.records by simp]
    exact h
  | @listed purpose names all =>
    left
    have hmem : unitDirName target.unit.generation ∈ names := by
      refine all.mem_iff.mpr (World.mem_entriesOf.2 ?_)
      rw [ha]
      cases ht : w.units.get (unitDirKey target.unit) with
      | none => simp [World.readPidFile, ht] at hfile
      | some text => exact ⟨text, ht⟩
    cases names with
    | nil => simp at hmem
    | cons entry entries => exact ⟨h, .inl hmem⟩
  | @read purpose entry entries refs =>
    left
    obtain ⟨hpurpose, h⟩ := h
    have hread : unitDirName target.unit.generation ∈ entries ∨
        target.text ∈ readEntry w request refs entry := by
      rcases h with h | h
      · rcases List.mem_cons.mp h with rfl | h
        · right
          rw [UnitRef.text, ← ha]
          refine readEntry_found ?_ (by rw [ha]; exact hfile) halive
          rw [generationOf_unitDirName, if_pos hgen]
        · exact .inl h
      · exact .inr (subset_readEntry h)
    cases entries with
    | nil => exact attends_continueStops (mem_select (hread.resolve_left (by simp)) hpurpose)
    | cons entry' entries => exact ⟨hpurpose, hread⟩
  | @unparsed purpose ref rest reply parse =>
    have := hrefs ref List.mem_cons_self
    simp [parse] at this
  | @stopped purpose ref rest target' parse =>
    left
    have h' : target = target' ∨ target.text ∈ rest := by
      rcases List.mem_cons.mp h with rfl | h
      · exact .inl (Option.some.inj (hparse.symm.trans parse))
      · exact .inr h
    rcases terminateStart_cases (w := w) with ⟨-, heq⟩ | ⟨hdead, heq⟩
    · rw [heq]
      exact h'
    · have hne : target ≠ target' := by
        rintro rfl
        simp [hlive'] at hdead
      have ha := @after purpose _ _ (.ref List.mem_cons_self parse) hne h'
      rw [heq] at ha ⊢
      exact ha
  | @exited after' target' expired dead =>
    have hne : target ≠ target' := by
      rintro rfl
      simp [hlive'] at dead
    cases after' with
    | abandon failure => exact absurd h (by simp [Phase.Attends, AfterTerminate.rest, hne])
    | stop purpose rest => exact .inl (after .polled hne h)
  | @killed after' target' alive =>
    have hne : target ≠ target' := by
      rintro rfl
      simp at hlive
    cases after' with
    | abandon failure => exact absurd h (by simp [Phase.Attends, AfterTerminate.rest, hne])
    | stop purpose rest => exact .inl (after .polled hne h)
  | waited | removed => exact .inl h
  | parentRemoved => exact .inl (attends_continueStops h)
  | notMade leaves failed => simp [hr] at failed
  | observedEnsure | observedDestroy | abandoned => exact h.elim
  | _ => simp [Reply.isFailure] at hr

end

variable {cfg : Config} {a : String} {s t : State} {e : Event} {c : ℕ} {request : Request}
  {phase next : Phase} {changes : List Change} {target : UnitRef} {now : String}

/-- A destroy that was let through attends to every unit but the one it finds no reference of. -/
lemma attends_afterObserveDestroy {m : Records} {destroy : DestroySidecarRequest}
    {record : AllocationRecord} (hx : destroy.externalRef = none)
    (hm : matchesAllocationIdPattern destroy.allocationId)
    (hr : record.externalRef = none ∨ record.externalRef = some target.text) :
    (afterObserveDestroy (.destroy destroy) destroy (.observed record)).Attends m
      (.destroy destroy) target := by
  rcases hr with hr | hr <;> simp only [afterObserveDestroy, hx, hr]
  · rw [enterListing, if_pos (by exact hm)]
    exact Purpose.noConfusion
  · exact attends_continueStops (List.mem_singleton.mpr rfl)

/-- **A store operation leaves a recorded unit attended to**, by its record or by the call. -/
lemma attended_recorded (ho : Orderly cfg a s) (hcall : s.calls c = some ⟨request, phase⟩)
    (hm : Moves cfg s.world request phase (.stored now) next changes)
    (ha : request.allocationId = a) (hta : target.unit.allocationId = a)
    (hs : Startable cfg request.allocationId)
    (hlive : s.world.processes target.pid = some (.sidecar target.unit))
    (h : s.world.records.IsOf target) :
    (s.world.applyAll cfg.allocationsDir changes).records.IsOf target ∨
      next.Attends (s.world.applyAll cfg.allocationsDir changes).records request target := by
  obtain ⟨op, hop, hrec⟩ := hm.stored
  rw [hrec]
  cases hm with
  | observedEnsure ensure is =>
    subst is
    obtain rfl := Option.some.inj hop
    rcases isOf_observeEnsure (Request.ensure ensure).observeArgs h (ha.trans hta.symm) with
      h | ⟨h, record, ho, hx⟩
    · exact .inl h
    · obtain ⟨args, hargs⟩ := spawnArgsFor_ok_iff.2 hs
      right
      rw [ho]
      simp only [afterObserveEnsure, hx, hargs]
      exact h
  | observedDestroy destroy is =>
    subst is
    obtain rfl := Option.some.inj hop
    rcases isOf_observeDestroy (Request.destroy destroy).observeArgs h (ha.trans hta.symm) with
      h | ⟨record, hobs, hx⟩
    · exact .inl h
    · right
      rw [hobs]
      exact attends_afterObserveDestroy ((ho.request c _ _ hcall ha).2 destroy rfl) hs.1 (.inr hx)
  | @recorded now pid =>
    obtain rfl := Option.some.inj hop
    obtain ⟨r, hr, hg, hd, hx⟩ := h
    -- the ensure holds a unit of another generation, or the recorded one itself
    by_cases hgen : target.unit.generation = request.generation
    · have hpid : target.pid = pid := by
        refine ho.agree ⟨request.unit, pid⟩ (.call c request _ hcall ha (.inl (.held rfl rfl))) _ ?_
        rw [hlive, show target.unit = request.unit from ?_]
        cases hu : target.unit with
        | mk a' k =>
          rw [hu] at hgen hta
          rw [Request.unit, ← hgen, ha, ← hta]
      rw [or_comm]
      exact attends_recorded (.inl ⟨hgen, hpid⟩) (ha.trans hta.symm) hs.1
        (ho.held c request _ hcall ha pid rfl) (ho.live _ _ hlive hta).1
    · left
      have hs := recordUnit_spec now s.world.records (recordUnitArgs request pid)
      simp only [StoreOp.apply, StoreOp.decide, Prod.map_snd, id_eq]
      generalize recordUnit now s.world.records (recordUnitArgs request pid) = d at hs
      cases hs with
      | no => exact ⟨r, hr, hg, hd, hx⟩
      | yes r' get generation state =>
        have get' : s.world.records.get target.unit.allocationId = some r' := by
          rw [hta, ← ha]; exact get
        obtain rfl := Option.some.inj (hr.symm.trans get')
        exact absurd (hg.symm.trans generation) hgen
  | unparsed parse ended => simp at ended
  | notMade leaves failed => simp [Reply.isFailure] at failed

/-- A store operation of another call leaves the record of a start there, or the call attends to
all units. -/
lemma attended_awaiting (ho : Orderly cfg a s) (hcall : s.calls c = some ⟨request, phase⟩)
    (hm : Moves cfg s.world request phase (.stored now) next changes)
    (ha : request.allocationId = a) (hta : target.unit.allocationId = a)
    (hs : matchesAllocationIdPattern request.allocationId) {c' : ℕ} {request' : Request}
    {phase' : Phase} (hcall' : s.calls c' = some ⟨request', phase'⟩)
    (ha' : request'.allocationId = a) (hp' : phase'.isStarting) (hne : c' ≠ c) {generation : ℕ}
    (h : s.world.records.Awaits generation target) :
    (s.world.applyAll cfg.allocationsDir changes).records.Awaits generation target ∨
      next.Attends (s.world.applyAll cfg.allocationsDir changes).records request target := by
  obtain ⟨op, hop, hrec⟩ := hm.stored
  rw [hrec]
  cases hm with
  | observedEnsure ensure is =>
    subst is
    exact absurd (ho.starting_eq hcall ha rfl hcall' ha' hp') hne
  | observedDestroy destroy is =>
    subst is
    obtain rfl := Option.some.inj hop
    rcases awaits_observeDestroy (Request.destroy destroy).observeArgs h (ha.trans hta.symm)
      with h | ⟨record, hobs, hx⟩
    · exact .inl h
    · right
      rw [hobs]
      exact attends_afterObserveDestroy ((ho.request c _ _ hcall ha).2 destroy rfl) hs (.inl hx)
  | recorded =>
    obtain ⟨ensure, rfl⟩ := ho.ensure c request _ hcall ha rfl
    exact absurd (ho.starting_eq hcall ha rfl hcall' ha' hp') hne
  | unparsed parse ended => simp at ended
  | notMade leaves failed => simp [Reply.isFailure] at failed

/-- Every unit of an allocation that runs is attended to. -/
def State.AttendsAll (s : State) (a : String) : Prop :=
  ∀ unit pid, s.world.processes pid = some (.sidecar unit) → unit.allocationId = a →
    s.Attended ⟨unit, pid⟩

/-- **One step leaves every unit that runs attended to.** -/
theorem attendsAll_step (ho : Orderly cfg a s) (hg : Calm cfg a s e) (h : Happens cfg s e t)
    (hs : s.AttendsAll a) : t.AttendsAll a := by
  intro unit pid hp hua
  rcases h.sidecar hp with hp' | ⟨-, -, c, request, args, -, -, ht, rfl⟩
  swap
  · exact .inr ⟨c, request, _, ht, rfl, .inl ⟨rfl, rfl⟩⟩
  obtain ⟨hpos, hgen, hst⟩ := ho.live unit pid hp' hua
  rcases ho.pidFile unit pid hp' hua with hfile | ⟨c, request, hcall, rfl⟩
  swap
  -- the ensure that has just spawned the process holds it still
  · rcases h.call_next hcall rfl with rfl | h' | ⟨r, next, changes, rfl, hcall', hm, -⟩
    · exact hg.elim
    · exact .inr ⟨c, request, _, h', rfl, .inl ⟨rfl, rfl⟩⟩
    · obtain rfl := hm.writing_next (hg.not_failure hcall hua)
      exact .inr ⟨c, request, _, hcall', rfl, .inl ⟨rfl, rfl⟩⟩
  -- a call that moves attends to the unit after it
  have moved : ∀ {c r request phase next changes}, e = .reply c r →
      s.calls c = some ⟨request, phase⟩ → request.allocationId = a →
      t.calls c = some ⟨request, next⟩ → Moves cfg s.world request phase r next changes →
      t.world = s.world.applyAll cfg.allocationsDir changes →
      phase.Attends s.world.records request ⟨unit, pid⟩ → t.Attended ⟨unit, pid⟩ := by
    rintro c r request phase next changes rfl hcall ha ht hm hw hatt
    rw [hw] at hp
    rcases attends_moves hm (hg.not_failure hcall ha) hatt (ha.trans hua.symm) (ha ▸ hst) hpos hgen
      hp hp' hfile (fun pid hp => ho.held c request phase hcall ha pid hp)
      (fun ref href => ho.refs c request phase hcall ha ref href)
      (fun target' hn => (ho.own target' (.call c request phase hcall ha (.inl hn))).trans ha.symm)
      with h' | h'
    · exact .inr ⟨c, request, next, ht, ha.trans hua.symm, by rw [hw]; exact h'⟩
    · exact .inl (by rw [hw]; exact h')
  rcases h.records_of hg.ne_restart a with
    hrec | ⟨c, request, phase, now, next, changes, rfl, hcall, ha, ht, hm, hw⟩
  · have heq : t.world.records.get unit.allocationId = s.world.records.get unit.allocationId := by
      rw [hua, hrec]
    rcases hs unit pid hp' hua with h' | ⟨c, request, phase, hcall, ha, hatt⟩
    · exact .inl (h'.congr heq)
    · rcases h.call_next hcall hatt.isExecuting with
        rfl | ht | ⟨r, next, changes, he, ht, hm, hw⟩
      · exact hg.elim
      · refine .inr ⟨c, request, phase, ht, ha, ?_⟩
        rcases hatt.of_records with hatt' | ⟨hstart, haw⟩
        · exact hatt'
        · exact .of_awaits (haw.congr heq) hstart (ho.abandons c request phase hcall (ha.trans hua))
      · exact moved he hcall (ha.trans hua) ht hm hw hatt
  · have attends : next.Attends t.world.records request ⟨unit, pid⟩ → t.Attended ⟨unit, pid⟩ :=
      fun hatt => .inr ⟨c, request, next, ht, ha.trans hua.symm, hatt⟩
    rcases hs unit pid hp' hua with h' | ⟨c', request', phase', hcall', ha', hatt⟩
    · have hatt := attended_recorded ho hcall hm ha hua (ha ▸ hst) hp' h'
      rw [← hw] at hatt
      exact hatt.elim .inl attends
    · by_cases hc : c' = c
      · subst hc
        obtain ⟨rfl, rfl⟩ := by simpa using hcall.symm.trans hcall'
        exact moved rfl hcall ha ht hm hw hatt
      · have ht' : t.calls c' = some ⟨request', phase'⟩ := by
          rcases h.call_next hcall' hatt.isExecuting with he | ht' | ⟨_, _, _, he, -⟩
          · simp at he
          · exact ht'
          · exact absurd (Event.reply.inj he).1.symm hc
        have hsplit : phase'.Attends t.world.records request' ⟨unit, pid⟩ ∨ _ := hatt.of_records
        rcases hsplit with hatt | ⟨hstart, haw⟩
        · exact .inr ⟨c', request', phase', ht', ha', hatt⟩
        have ha' : request'.allocationId = a := ha'.trans hua
        have hatt := attended_awaiting ho hcall hm ha hua (ha ▸ hst.1) hcall' ha' hstart hc haw
        rw [← hw] at hatt
        refine hatt.elim
          (fun haw => .inr ⟨c', request', phase', ht', ha'.trans hua.symm, ?_⟩) attends
        exact .of_awaits haw hstart (ho.abandons c' request' phase' hcall' ha')

/-- All calls on an allocation have settled. -/
def State.Settled (s : State) (a : String) : Prop :=
  ∀ c request phase, s.calls c = some ⟨request, phase⟩ → request.allocationId = a →
    ∃ result, phase = .returned result

lemma Reachable.attendsAll (h : Reachable cfg (Calm cfg a) s) : s.AttendsAll a := by
  obtain ⟨s₀, h0, hr⟩ := h
  refine hr.invariant_of (I := Orderly cfg a) (fun t ht => Reachable.orderly ⟨s₀, h0, ht⟩) ?_
    fun _ _ _ ho _ hs hg hst => attendsAll_step ho hg (step_happens hst) hs
  intro unit pid hp
  simpa using h0.processes pid _ hp

/-- **When the calls on an allocation have settled, what runs is its recorded unit**, in every
run in which the ensures do not overlap each other and nothing fails. -/
theorem settled_recorded (h : Reachable cfg (Calm cfg a) s) (hs : s.Settled a) :
    (∀ unit pid, s.world.processes pid = some (.sidecar unit) → unit.allocationId = a →
      ∃ r, s.world.records.get a = some r ∧ r.desiredState = .ensured ∧
        r.generation = unit.generation ∧
        r.externalRef = some (externalRefOf a unit.generation pid)) ∧
    ((∃ r, s.world.records.get a = some r ∧ r.desiredState = .destroyed) →
      ∀ unit pid, unit.allocationId = a → s.world.processes pid ≠ some (.sidecar unit)) := by
  have recorded : ∀ unit pid, s.world.processes pid = some (.sidecar unit) →
      unit.allocationId = a → s.world.records.IsOf ⟨unit, pid⟩ := by
    intro unit pid hp ha
    rcases h.attendsAll unit pid hp ha with h' | ⟨c, request, phase, hcall, hra, hatt⟩
    · exact h'
    · obtain ⟨result, rfl⟩ := hs c request phase hcall (hra.trans ha)
      exact hatt.elim
  constructor
  · intro unit pid hp ha
    obtain ⟨r, hr, hg, hd, hx⟩ := recorded unit pid hp ha
    subst ha
    exact ⟨r, hr, hd, hg, hx⟩
  · rintro ⟨r, hr, hd⟩ unit pid ha hp
    obtain ⟨r', hr', -, hd', -⟩ := recorded unit pid hp ha
    subst ha
    obtain rfl := Option.some.inj (hr.symm.trans hr')
    simp [hd] at hd'

/-- An ensure has settled; its unit runs and is recorded. -/
theorem settled_recorded_ensured : ∃ s : State,
    s.world.processes 7 = some (.sidecar ⟨"a", 1⟩) ∧
    ∃ r, s.world.records.get "a" = some r ∧ r.desiredState = .ensured ∧ r.generation = 1 ∧
      r.externalRef = some (externalRefOf "a" 1 7) := by
  have first : Calm sampleConfig "a" idle (.call 0 (ensureOf "a" 1)) := by
    refine fun _ => ⟨by decide, ?_⟩
    rintro c ⟨request, phase, hc, -⟩
    simp [idle] at hc
  have quiet : ∀ {s : State} {r : Reply}, r.isFailure = false →
      (∃ phase, s.calls 0 = some ⟨ensureOf "a" 1, phase⟩) →
      Calm sampleConfig "a" s (.reply 0 r) := by
    rintro s r hr ⟨phase', hc⟩ request phase hcall
    obtain ⟨rfl, -⟩ := by simpa using hc.symm.trans hcall
    exact ⟨fun _ => hr, fun hne => absurd rfl hne⟩
  have hr : Reach (step sampleConfig) (Calm sampleConfig "a") idle _ :=
    .head (e := .call 0 (ensureOf "a" 1)) first rfl
      (.head (e := .reply 0 (.stored "t0")) (quiet rfl ⟨_, rfl⟩) rfl
        (.head (e := .reply 0 (.spawned 7)) (quiet rfl ⟨_, rfl⟩) rfl
          (.head (e := .reply 0 .done) (quiet rfl ⟨_, rfl⟩) rfl
            (.head (e := .reply 0 (.stored "t1")) (quiet rfl ⟨_, rfl⟩) rfl
              (.head (e := .reply 0 (.listed ["gen-1"])) (quiet rfl ⟨_, rfl⟩) rfl
                (.head (e := .reply 0 .done) (quiet rfl ⟨_, rfl⟩) rfl .refl))))))
  refine ⟨_, rfl, (settled_recorded ⟨idle, initial_idle, hr⟩ ?_).1 ⟨"a", 1⟩ 7 rfl rfl⟩
  rintro (_ | c) request phase hcall -
  · obtain rfl := (Call.mk.inj (Option.some.inj hcall)).2
    exact ⟨_, rfl⟩
  · have hnone : none = some (Call.mk request phase) := hcall
    cases hnone

end Workbench.Provisioner
