import Workbench.Provisioner.MutualExclusion

/-!
When one process at most runs for each unit.

An ensure starts a unit when the record has no reference for its generation. So a live process
must keep a claim on its unit until the record has it: the record rules another start out, or
the ensure that spawned the process still holds it. A crash of the hub, or a failure between
the spawn and the record, loses the claim and leaves the process.
-/

namespace Workbench.Provisioner

open Workbench.Lib Workbench.Lib.Transition

/-! ### Records that rule a start out -/

/-- The record of an allocation is past starting a unit: newer, destroyed, or started. -/
def Covered (records : Records) (unit : UnitId) : Prop :=
  ∃ r, records.get unit.allocationId = some r ∧ (unit.generation < r.generation ∨
    (unit.generation = r.generation ∧ (r.desiredState = .destroyed ∨ r.externalRef ≠ none)))

lemma Covered.mono {m m' : Records} {unit : UnitId} (h : Covered m unit) (hm : Evolves m m') :
    Covered m' unit := by
  obtain ⟨r, hr, h⟩ := h
  obtain ⟨r', hr', hf⟩ := hm _ _ hr
  have hg := hf.generation
  refine ⟨r', hr', ?_⟩
  rcases h with h | ⟨h, h'⟩
  · exact .inl (by omega)
  · by_cases he : r'.generation = r.generation
    · exact .inr ⟨by omega, h'.imp (hf.destroyed he) (hf.started he)⟩
    · exact .inl (by omega)

/-- `observeEnsure` lets a unit start only where the record does not rule it out. -/
lemma not_covered_of_observed {now : String} {m : Records} {args : ObserveArgs}
    {record : AllocationRecord} (h : (observeEnsure now m args).1 = .observed record)
    (hr : record.externalRef = none) : ¬ Covered m ⟨args.allocationId, args.generation⟩ := by
  rintro ⟨r, hget, hcov⟩
  have hs := observeEnsure_spec now m args
  generalize observeEnsure now m args = d at h hs
  cases hs with
  | refused => simp at h
  | present r' get sidecar generation state =>
    obtain rfl : r = r' := Option.some.inj (hget.symm.trans get)
    obtain rfl : r = record := by simpa using h
    simp [generation, state, hr] at hcov
  | fresh older =>
    have := (older r hget).2
    dsimp only at hcov
    omega

/-- The record an operation observes is the record afterwards. -/
lemma get_apply_observeEnsure {now : String} {m : Records} {args : ObserveArgs}
    {record : AllocationRecord} (h : (observeEnsure now m args).1 = .observed record) :
    ((StoreOp.observeEnsure args).apply now m).get args.allocationId = some record ∧
      record.generation = args.generation ∧ record.desiredState = .ensured := by
  have hs := observeEnsure_spec now m args
  simp only [StoreOp.apply, StoreOp.decide, Prod.map_snd, id_eq]
  generalize observeEnsure now m args = d at h hs
  cases hs with
  | refused => simp at h
  | present r get sidecar generation state =>
    obtain rfl : r = record := by simpa using h
    exact ⟨get, generation, state⟩
  | fresh older =>
    obtain rfl : _ = record := by simpa using h
    exact ⟨by simp [Records.get_put, ensuredRecord], rfl, rfl⟩

/-- `recordUnit` leaves a record that rules the unit's start out, whatever it answers. -/
lemma covered_recordUnit {now : String} {m : Records} {args : RecordUnitArgs}
    (h : ∃ r, m.get args.allocationId = some r ∧ args.generation ≤ r.generation) :
    Covered ((StoreOp.recordUnit args).apply now m) ⟨args.allocationId, args.generation⟩ := by
  obtain ⟨r, hget, hle⟩ := h
  have hs := recordUnit_spec now m args
  simp only [StoreOp.apply, StoreOp.decide, Prod.map_snd, id_eq]
  generalize recordUnit now m args = d at hs
  cases hs with
  | no other =>
    refine ⟨r, hget, ?_⟩
    rcases other r hget with h | h
    · exact .inl (by dsimp only; omega)
    · by_cases hg : args.generation = r.generation
      · exact .inr ⟨hg, .inl h⟩
      · exact .inl (by dsimp only; omega)
  | yes r' get generation state =>
    have hk : r'.allocationId = args.allocationId := Records.allocationId_of_get get
    exact ⟨unitRecord now r' args.externalRef,
      by simp [Records.get_put, unitRecord, hk],
      .inr ⟨generation.symm, .inr (by simp [unitRecord])⟩⟩

/-! ### Ensures that hold a process -/

/-- A call holds a process that it spawned for a unit. -/
def State.Holds (s : State) (unit : UnitId) (pid : ℕ) : Prop :=
  ∃ c request phase, s.calls c = some ⟨request, phase⟩ ∧ request.unit = unit ∧
    phase.held = some pid

/-- No step loses a live process between its spawn and its record. The pid file may fail to be
written, since the ensure goes on to terminate the process. -/
def KeepsHeld (s : State) : Event → Prop
  | .reply c r => r.isFailure → ∀ request phase pid, s.calls c = some ⟨request, phase⟩ →
      phase.held = some pid → phase = .writingPid pid ∨
        s.world.processes pid ≠ some (.sidecar request.unit)
  | .restart => ∀ unit pid, s.Holds unit pid → s.world.processes pid ≠ some (.sidecar unit)
  | _ => True

namespace Phase

/-- An ensure that starts a unit. -/
def isStarting : Phase → Bool
  | .making _ => true
  | phase => phase.held.isSome

lemma isExecuting_of_held {phase : Phase} {pid : ℕ} (h : phase.held = some pid) :
    phase.isExecuting := by
  cases phase <;> first | rfl | simp [held] at h

lemma isStarting_of_held {phase : Phase} {pid : ℕ} (h : phase.held = some pid) :
    phase.isStarting := by
  cases phase <;> simp_all [isStarting, held]

lemma isExecuting_of_isStarting {phase : Phase} (h : phase.isStarting) : phase.isExecuting := by
  cases phase <;> first | rfl | simp [isStarting, held] at h

lemma not_isStarting_of_isInert {phase : Phase} (h : phase.isInert) : ¬ phase.isStarting := by
  cases phase <;> simp [isStarting, held, isInert] at h ⊢

end Phase

lemma Moves.starting_next {cfg : Config} {w : World} {request : Request} {phase next : Phase}
    {r : Reply} {changes : List Change} (h : Moves cfg w request phase r next changes)
    (hn : next.isStarting) : phase.isStarting ∨ ∃ args, next = .making args := by
  cases hm : next with
  | making args => exact .inr ⟨args, rfl⟩
  | _ =>
    have hh : next.held.isSome := by subst hm; exact hn
    obtain ⟨pid, hp⟩ := Option.isSome_iff_exists.mp hh
    rcases h.held_next hp with h | ⟨args, rfl, -⟩
    · exact .inl (Phase.isStarting_of_held h)
    · exact .inl rfl

/-- Every live sidecar has a claim on its unit, and no unit has two. -/
structure Claimed (s : State) : Prop where
  file : Evolves s.world.records s.world.file
  ensure : ∀ c request phase, s.calls c = some ⟨request, phase⟩ → phase.isStarting →
    ∃ ensure, request = .ensure ensure
  /-- the record has come to the generation of a unit that is started -/
  record : ∀ c request phase, s.calls c = some ⟨request, phase⟩ → phase.isStarting →
    ∃ r, s.world.records.get request.allocationId = some r ∧ request.generation ≤ r.generation
  claim : ∀ pid unit, s.world.processes pid = some (.sidecar unit) →
    Covered s.world.records unit ∨ s.Holds unit pid
  free : ∀ c request args, s.calls c = some ⟨request, .making args⟩ → ∀ pid,
    s.world.processes pid ≠ some (.sidecar request.unit)
  held : ∀ c request phase pid pid', s.calls c = some ⟨request, phase⟩ → phase.held = some pid →
    s.world.processes pid' = some (.sidecar request.unit) → pid' = pid
  unique : ∀ unit pid pid', s.world.processes pid = some (.sidecar unit) →
    s.world.processes pid' = some (.sidecar unit) → pid = pid'

lemma claimed_initial {s : State} (h : Initial s) : Claimed s := by
  exact {
    file := by rw [h.records, h.file]; exact .refl _
    ensure := fun c request phase hc => absurd hc (h.no_call _ _)
    record := fun c request phase hc => absurd hc (h.no_call _ _)
    claim := fun pid unit hp => absurd hp (h.no_sidecar _ _)
    free := fun c request args hc => absurd hc (h.no_call _ _)
    held := fun c request phase pid pid' hc => absurd hc (h.no_call _ _)
    unique := fun unit pid pid' hp => absurd hp (h.no_sidecar _ _) }

variable {cfg : Config} {s t : State} {e : Event}

/-- Ensures that start the same unit are the same. -/
lemma Claimed.starting_unique (hc : Claimed s) (hs : Serial s) {c c' : ℕ}
    {request request' : Request} {phase phase' : Phase}
    (h : s.calls c = some ⟨request, phase⟩) (h' : s.calls c' = some ⟨request', phase'⟩)
    (hp : phase.isStarting) (hen : ∃ ensure, request' = .ensure ensure)
    (hp' : phase'.isExecuting) (hu : request.allocationId = request'.allocationId) : c = c' := by
  obtain ⟨ensure, rfl⟩ := hc.ensure c request phase h hp
  obtain ⟨ensure', rfl⟩ := hen
  exact hs.executing_unique ⟨ensure, phase, h, rfl, Phase.isExecuting_of_isStarting hp⟩
    ⟨ensure', phase', h', hu.symm, hp'⟩

/-- **One step keeps every claim.** -/
theorem Claimed.step (hc : Claimed s) (hs : Serial s) (hg : KeepsHeld s e)
    (h : Happens cfg s e t) : Claimed t where
  file := h.evolves_file hc.file
  ensure c request phase hcall hp := by
    rcases h.call_of hcall with h | h | ⟨phase', r, changes, -, hcall', hm, -⟩
    · exact hc.ensure c request phase h hp
    · exact absurd hp (Phase.not_isStarting_of_isInert h)
    · rcases hm.starting_next hp with h | ⟨args, rfl⟩
      · exact hc.ensure c request phase' hcall' h
      · obtain ⟨ensure, -, -, h, -⟩ := hm.making_next
        exact ⟨ensure, h⟩
  record c request phase hcall hp := by
    have mono : ∀ {phase'}, s.calls c = some ⟨request, phase'⟩ → phase'.isStarting →
        e ≠ .restart → ∃ r, t.world.records.get request.allocationId = some r ∧
          request.generation ≤ r.generation := by
      intro phase' hcall' hp' he
      obtain ⟨r, hr, hle⟩ := hc.record c request phase' hcall' hp'
      obtain ⟨r', hr', hf⟩ := h.evolves he _ _ hr
      exact ⟨r', hr', hle.trans hf.generation⟩
    have he := h.ne_restart hcall
    rcases h.call_of hcall with hcall' | hi | ⟨phase', r, changes, rfl, hcall', hm, hw⟩
    · exact mono hcall' hp he
    · exact absurd hp (Phase.not_isStarting_of_isInert hi)
    · rcases hm.starting_next hp with hp' | ⟨args, rfl⟩
      · exact mono hcall' hp' he
      · obtain ⟨ensure, now, record, rfl, rfl, rfl, ho, -⟩ := hm.making_next
        obtain ⟨op, hop, hrec⟩ := hm.stored
        obtain rfl := Option.some.inj hop
        obtain ⟨hget, hgen, -⟩ := get_apply_observeEnsure ho
        exact ⟨record, by rw [hw, hrec]; exact hget, hgen.ge⟩
  claim pid unit hp := by
    have mono : Covered s.world.records unit → Covered t.world.records unit := by
      intro hcov
      by_cases he : e = .restart
      · subst he
        cases h
        exact hcov.mono hc.file
      · exact hcov.mono (h.evolves he)
    rcases h.sidecar hp with hp' | ⟨-, -, c, request, args, -, -, hcall, rfl⟩
    · rcases hc.claim pid unit hp' with hcov | ⟨c, request, phase, hcall, rfl, hheld⟩
      · exact .inl (mono hcov)
      · rcases h.call_next hcall (Phase.isExecuting_of_held hheld) with
          rfl | h' | ⟨r, next, changes, rfl, hcall', hm, hw⟩
        · exact absurd hp' (hg _ _ ⟨c, request, phase, hcall, rfl, hheld⟩)
        · exact .inr ⟨c, request, phase, h', rfl, hheld⟩
        · rcases hm.held_lost hheld with h' | ⟨now, rfl, rfl⟩ | h' | ⟨hfail, hne⟩
          · exact .inr ⟨c, request, next, hcall', rfl, h'⟩
          · obtain ⟨op, hop, hrec⟩ := hm.stored
            obtain rfl := Option.some.inj hop
            rw [hw, hrec]
            exact .inl (covered_recordUnit (hc.record c request _ hcall rfl))
          · rw [hw, h'] at hp
            simp at hp
          · rcases hg hfail request phase pid hcall hheld with h' | h'
            · exact absurd h' hne
            · exact absurd hp' h'
    · exact .inr ⟨c, request, _, hcall, rfl, rfl⟩
  free c request args hcall pid hp := by
    rcases h.sidecar hp with hp' | ⟨-, -, c', request', args', rfl, hcall', ht, hu⟩
    · rcases h.call_of hcall with hcall' | hi | ⟨phase', r, changes, rfl, hcall', hm, -⟩
      · exact hc.free c request args hcall' pid hp'
      · simp [Phase.isInert] at hi
      · obtain ⟨ensure, now, record, rfl, rfl, rfl, ho, hr, -⟩ := hm.making_next
        rcases hc.claim pid _ hp' with hcov | ⟨c', request', phase, hcall₂, hu, hheld⟩
        · exact not_covered_of_observed ho hr hcov
        · obtain rfl := hc.starting_unique hs hcall₂ hcall' (Phase.isStarting_of_held hheld)
            ⟨ensure, rfl⟩ rfl (congrArg UnitId.allocationId hu)
          obtain ⟨-, rfl⟩ := by simpa using hcall'.symm.trans hcall₂
          simp [Phase.held] at hheld
    · have hne : c' ≠ c := by
        rintro rfl
        simp [ht] at hcall
      have hcall₂ : s.calls c = some ⟨request, .making args⟩ := by
        rcases h.call_of hcall with hcall₂ | hi | ⟨phase', r, changes, he, -⟩
        · exact hcall₂
        · simp [Phase.isInert] at hi
        · exact absurd (Event.reply.inj he).1 hne
      exact hne (hc.starting_unique hs hcall' hcall₂ rfl (hc.ensure c request _ hcall₂ rfl) rfl
        (congrArg UnitId.allocationId hu).symm)
  held c request phase pid pid' hcall hheld hp := by
    rcases h.call_of hcall with hcall' | hi | ⟨phase', r, changes, rfl, hcall', hm, hw⟩
    · rcases h.sidecar hp with hp' | ⟨-, -, c', request', args', rfl, hcall₂, ht, hu⟩
      · exact hc.held c request phase pid pid' hcall' hheld hp'
      · obtain rfl := hc.starting_unique hs hcall₂ hcall' rfl
          (hc.ensure c request phase hcall' (Phase.isStarting_of_held hheld))
          (Phase.isExecuting_of_held hheld) (congrArg UnitId.allocationId hu).symm
        obtain ⟨-, rfl⟩ := by simpa using hcall₂.symm.trans hcall'
        simp [Phase.held] at hheld
    · simp [Phase.held_of_isInert hi] at hheld
    · rcases hm.held_next hheld with hheld' | ⟨args, rfl, rfl⟩
      · rcases h.sidecar hp with hp' | ⟨-, -, c', request', args', he, hcall₂, -⟩
        · exact hc.held c request phase' pid pid' hcall' hheld' hp'
        · obtain ⟨rfl, rfl⟩ := Event.reply.inj he
          obtain ⟨-, rfl⟩ := by simpa using hcall₂.symm.trans hcall'
          simp [Phase.held] at hheld'
      · rcases h.sidecar hp with hp' | ⟨-, -, c', request', args', he, -⟩
        · exact absurd hp' (hc.free c request args hcall' pid')
        · exact (by simpa using he : c = c' ∧ pid = pid').2.symm
  unique unit pid pid' hp hp' := by
    rcases h.sidecar hp with h₁ | ⟨-, -, c, request, args, he, hcall, -, rfl⟩
    · rcases h.sidecar hp' with h₂ | ⟨-, -, c, request, args, -, hcall, -, rfl⟩
      · exact hc.unique unit pid pid' h₁ h₂
      · exact absurd h₁ (hc.free c request args hcall pid)
    · rcases h.sidecar hp' with h₂ | ⟨-, -, c', request', args', he', -⟩
      · exact absurd h₂ (hc.free c request args hcall pid')
      · exact (by simpa using he.symm.trans he' : c = c' ∧ pid = pid').2

/-! ### One ensure at a time -/

/-- At most one `ensureOnce` body runs for each allocation. -/
def BodiesExclusive (s : State) : Prop :=
  ∀ a c c', s.Executing c a → s.Executing c' a → c = c'

/-- No step spawns a process for a unit that has a live one. -/
def SpawnsOnce (cfg : Config) (s : State) : Prop :=
  ∀ e unit args pid, Change.spawn unit args pid ∈ actionsOf cfg s e →
    ∀ pid', s.world.processes pid' ≠ some (.sidecar unit)

lemma Reachable.serial {guard : State → Event → Prop} (h : Reachable cfg guard s)
    (hg : ∀ s e, guard s e → SeesUnsettled s e) : Serial s := by
  obtain ⟨s₀, h0, hr⟩ := h
  exact hr.invariant (serial_initial h0)
    fun _ _ _ hs hge hst => hs.step (hg _ _ hge) (step_happens hst)

lemma Reachable.claimed {guard : State → Event → Prop} (h : Reachable cfg guard s)
    (hg : ∀ s e, guard s e → SeesUnsettled s e ∧ KeepsHeld s e) : Claimed s := by
  obtain ⟨s₀, h0, hr⟩ := h
  refine hr.invariant_of (I := Serial) (fun t ht => ?_) (claimed_initial h0) ?_
  · exact Reachable.serial ⟨s₀, h0, ht⟩ fun s e hge => (hg s e hge).1
  · exact fun _ _ _ hs _ hc hge hst => hc.step hs (hg _ _ hge).2 (step_happens hst)

/-- **An allocation has one ensure at work and a unit one process**, in every run whose ensures
see the unsettled ones of their allocation and which loses no process before its record. -/
theorem ensure_exclusive (cfg : Config) (s : State) :
    (Reachable cfg SeesUnsettled s → BodiesExclusive s) ∧
      (Reachable cfg (fun s e => SeesUnsettled s e ∧ KeepsHeld s e) s → SpawnsOnce cfg s) := by
  constructor
  · intro h a c c'
    exact (h.serial fun _ _ hg => hg).executing_unique
  · intro h e unit args pid hm pid' hp
    obtain ⟨c, r, request, phase, next, changes, -, hc, hmoves, hm⟩ := mem_actionsOf hm
    obtain ⟨rfl, -, rfl⟩ := hmoves.spawn_mem hm
    exact (h.claimed fun _ _ hg => hg).free c request args hc pid' hp

/-- An ensure that has spawned its process and is about to write the pid file. -/
theorem ensure_exclusive_spawned : ∃ s, s.world.processes 7 = some (.sidecar ⟨"a", 1⟩) ∧
    BodiesExclusive s ∧ SpawnsOnce sampleConfig s := by
  have quiet : ∀ {s c r}, r.isFailure = false →
      SeesUnsettled s (.reply c r) ∧ KeepsHeld s (.reply c r) :=
    fun h => ⟨trivial, fun h' => by simp [h] at h'⟩
  have first : SeesUnsettled idle (.call 0 (ensureOf "a" 1)) := by
    rintro c ⟨request, phase, hc, -⟩
    simp [idle] at hc
  have hr : Reach (step sampleConfig) (fun s e => SeesUnsettled s e ∧ KeepsHeld s e) idle _ :=
    .head (e := .call 0 (ensureOf "a" 1)) ⟨first, trivial⟩ rfl
      (.head (e := .reply 0 (.stored "t")) (quiet rfl) rfl
        (.head (e := .reply 0 (.spawned 7)) (quiet rfl) rfl .refl))
  exact ⟨_, rfl, (ensure_exclusive sampleConfig _).1 ⟨idle, initial_idle, hr.mono fun _ _ h => h.1⟩,
    (ensure_exclusive sampleConfig _).2 ⟨idle, initial_idle, hr⟩⟩

/-- Two ensures behind one whose start fails: both go on when it settles. -/
def chainedEnsures : List Event :=
  [.call 0 (ensureOf "a" 1), .call 1 (ensureOf "a" 1), .call 2 (ensureOf "a" 1),
    .reply 0 (.stored "t0"), .reply 0 (.mkdirFailed outage), .clear 0, .resume 1, .resume 2,
    .reply 1 (.stored "t1"), .reply 2 (.stored "t2"), .reply 1 (.spawned 7)]

/-- **Three ensures are enough for two bodies at work**, and for a second process of a unit. -/
theorem ensure_not_exclusive : ∃ s, run (step sampleConfig) idle chainedEnsures = some s ∧
    ¬ BodiesExclusive s ∧ ¬ SpawnsOnce sampleConfig s := by
  refine ⟨_, rfl, fun h => ?_, fun h => ?_⟩
  · exact absurd (h "a" 1 2 ⟨_, _, rfl, rfl, rfl⟩ ⟨_, _, rfl, rfl, rfl⟩) (by decide)
  · exact h (.reply 2 (.spawned 8)) ⟨"a", 1⟩ _ 8 (.tail _ (.head _)) 7 rfl

end Workbench.Provisioner
