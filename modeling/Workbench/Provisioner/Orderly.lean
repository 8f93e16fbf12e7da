import Workbench.Provisioner.SpawnOnce
import Workbench.Provisioner.Signals

/-!
The calls on one allocation as long as nothing they do fails.

Every generation is started once, and what is known of a unit, in its pid file, in the record
and in the calls, is the pid of its process. Destroys may overlap the ensures and each other.
-/

namespace Workbench.Provisioner

open Workbench.Lib Workbench.Lib.Transition

/-- The calls on an allocation are ensures that do not overlap each other and destroys without
a reference, of positive generations; nothing they await fails, and the hub does not crash. Calls
on other allocations do anything but take unit directories of this one away. -/
def Calm (cfg : Config) (a : String) (s : State) : Event → Prop
  | .call _ (.ensure ensure) => ensure.allocationId = a →
      0 < ensure.generation.toNat ∧ ∀ c, ¬ s.Unsettled c a
  | .call _ (.destroy destroy) => destroy.allocationId = a →
      0 < destroy.generation.toNat ∧ destroy.externalRef = none
  | .reply c r => ∀ request phase, s.calls c = some ⟨request, phase⟩ →
      (request.allocationId = a → r.isFailure = false) ∧
      (request.allocationId ≠ a → ∀ purpose target rest, phase = .removing purpose target rest →
        ∀ name, takesAway cfg.allocationsDir target.unit (a, name) →
          s.world.units.get (a, name) = none)
  | .restart => False
  | _ => True

/-- A start of the allocation gets as far as its first await. -/
def Startable (cfg : Config) (a : String) : Prop :=
  matchesAllocationIdPattern a ∧ ∃ path, cfg.env.path = some path ∧ path ≠ ""

/-- What the pid files, the record and the calls of an allocation say of its units. -/
inductive State.Known (s : State) (a : String) (target : UnitRef) : Prop
  | pidFile (entry : String) (generation : generationOf entry = some target.unit.generation)
    (own : target.unit.allocationId = a)
    (pid : s.world.readPidFile (a, entry) = some target.pid)
  | record (record : AllocationRecord) (ref : String)
    (get : s.world.records.get a = some record ∨ s.world.file.get a = some record)
    (externalRef : record.externalRef = some ref) (parse : parseExternalRef ref = some target)
  | call (c : ℕ) (request : Request) (phase : Phase)
    (call : s.calls c = some ⟨request, phase⟩) (own : request.allocationId = a)
    (names : phase.Names request target ∨ phase.target = some target)

namespace Phase

/-- A start that gives its process up, since it could not write the pid file. -/
def isAbandoning : Phase → Bool
  | .abandoning _ _ | .terminating (.abandon _) _ => true
  | _ => false

lemma not_isAbandoning_of_isInert {phase : Phase} (h : phase.isInert) : ¬ phase.isAbandoning := by
  cases phase <;> simp [isInert, isAbandoning] at h ⊢

end Phase

section

variable {cfg : Config} {w : World} {request : Request} {phase next : Phase} {r : Reply}
  {changes : List Change} {pid : ℕ}

lemma Moves.writing_next (h : Moves cfg w request (.writingPid pid) r next changes)
    (hr : r.isFailure = false) : next = .recording pid := by
  cases h with
  | pidWritten => rfl
  | storeFailed pending => simp [pendingOp] at pending
  | pidNotWritten => simp [Reply.isFailure] at hr

lemma Moves.writing_of_spawned {args : SpawnSidecarProcessArgs}
    (h : Moves cfg w request (.making args) (.spawned pid) next changes) :
    next = .writingPid pid := by
  cases h with
  | spawned => rfl
  | notMade leaves failed => simp [Reply.isFailure] at failed

lemma Moves.recorded_next (h : Moves cfg w request (.recording pid) r next changes)
    (hr : r.isFailure = false) : ∃ now, r = .stored now ∧ next =
      afterRecordUnit request pid (recordUnit now w.records (recordUnitArgs request pid)).1 := by
  cases h with
  | recorded => exact ⟨_, rfl, rfl⟩
  | storeFailed pending => simp [Reply.isFailure] at hr

lemma Moves.isAbandoning_next (h : Moves cfg w request phase r next changes)
    (hr : r.isFailure = false) (hn : next.isAbandoning) : phase.isAbandoning := by
  cases hnext : next with
  | abandoning failure pid =>
    rcases h.next_cases with h' | ⟨_, _, _, _, -, -, -, -, -, -, h'⟩ | ⟨_, _, -, -, h'⟩ |
      ⟨pid, rfl, -⟩
    · simp [hnext, Phase.startsNothing] at h'
    · simp [hnext] at h'
    · simp [hnext] at h'
    · simp [h.writing_next hr] at hnext
  | terminating after target =>
    subst hnext
    cases after with
    | stop purpose rest => simp [Phase.isAbandoning] at hn
    | abandon failure =>
      rcases h.terminating_next with rfl | ⟨purpose, ref, rest, rfl, -⟩ | ⟨failure, pid, rfl, -⟩
      · rfl
      · rcases @held_next _ _ _ _ _ _ _ target.pid h rfl with h' | ⟨args, h', -⟩ <;>
          simp [Phase.held] at h'
      · rfl
  | _ => simp [hnext, Phase.isAbandoning] at hn

/-- A call that holds a process and gives none up goes on to the record and leaves there. -/
lemma Moves.held_cases (h : Moves cfg w request phase r next changes) (hr : r.isFailure = false)
    (ha : ¬ phase.isAbandoning) (hp : phase.held = some pid) :
    (phase = .writingPid pid ∧ next = .recording pid) ∨
    (phase = .recording pid ∧ ∃ now, r = .stored now ∧ next =
      afterRecordUnit request pid (recordUnit now w.records (recordUnitArgs request pid)).1) := by
  cases hphase : phase with
  | writingPid pid' =>
    subst hphase
    obtain rfl := Option.some.inj hp
    exact .inl ⟨rfl, h.writing_next hr⟩
  | recording pid' =>
    subst hphase
    obtain rfl := Option.some.inj hp
    exact .inr ⟨rfl, h.recorded_next hr⟩
  | abandoning failure pid' => simp [hphase, Phase.isAbandoning] at ha
  | terminating after target =>
    cases after <;> simp [hphase, Phase.isAbandoning, Phase.held] at ha hp
  | _ => simp [hphase, Phase.held] at hp

end

/-- The state of an allocation as long as the calls on it are calm. -/
structure Orderly (cfg : Config) (a : String) (s : State) : Prop where
  alone : ∀ c c', s.Unsettled c a → s.Unsettled c' a → c = c'
  request : ∀ c request phase, s.calls c = some ⟨request, phase⟩ → request.allocationId = a →
    0 < request.generation ∧ ∀ destroy, request = .destroy destroy → destroy.externalRef = none
  abandons : ∀ c request phase, s.calls c = some ⟨request, phase⟩ → request.allocationId = a →
    ¬ phase.isAbandoning
  ensure : ∀ c request phase, s.calls c = some ⟨request, phase⟩ → request.allocationId = a →
    phase.isStarting → ∃ ensure, request = .ensure ensure
  startable : ∀ c request phase, s.calls c = some ⟨request, phase⟩ → request.allocationId = a →
    phase.isStarting → Startable cfg a
  held : ∀ c request phase, s.calls c = some ⟨request, phase⟩ → request.allocationId = a →
    ∀ pid, phase.held = some pid → 0 < pid
  /-- the record has come to the generation of a unit that is started -/
  started : ∀ c request phase, s.calls c = some ⟨request, phase⟩ → request.allocationId = a →
    phase.isStarting → ∃ r, s.world.records.get a = some r ∧ request.generation ≤ r.generation
  dirs : ∀ name text, s.world.units.get (a, name) = some text →
    (∃ k, name = unitDirName k) ∧ Startable cfg a
  refs : ∀ c request phase, s.calls c = some ⟨request, phase⟩ → request.allocationId = a →
    ∀ ref ∈ phase.refs, (parseExternalRef ref).isSome
  recorded : ∀ r ref, (s.world.records.get a = some r ∨ s.world.file.get a = some r) →
    r.externalRef = some ref → (parseExternalRef ref).isSome
  live : ∀ unit pid, s.world.processes pid = some (.sidecar unit) → unit.allocationId = a →
    0 < pid ∧ 0 < unit.generation ∧ Startable cfg a
  own : ∀ target, s.Known a target → target.unit.allocationId = a
  /-- a unit that is known is not started again -/
  past : ∀ target, s.Known a target → Covered s.world.records target.unit ∨
    ∃ c request phase, s.calls c = some ⟨request, phase⟩ ∧ request.unit = target.unit ∧
      phase.held.isSome
  fresh : ∀ c request args, s.calls c = some ⟨request, .making args⟩ → ∀ target,
    s.Known a target → target.unit ≠ request.unit
  agree : ∀ target, s.Known a target → ∀ pid,
    s.world.processes pid = some (.sidecar target.unit) → pid = target.pid
  pidFile : ∀ unit pid, s.world.processes pid = some (.sidecar unit) → unit.allocationId = a →
    s.world.readPidFile (unitDirKey unit) = some pid ∨ ∃ c request,
      s.calls c = some ⟨request, .writingPid pid⟩ ∧ request.unit = unit
  removing : ∀ c request purpose target rest, request.allocationId = a →
    s.calls c = some ⟨request, .removing purpose target rest⟩ → ∀ pid,
      s.world.processes pid ≠ some (.sidecar target.unit)

lemma orderly_initial {cfg : Config} {a : String} {s : State} (h : Initial s) :
    Orderly cfg a s := by
  have unknown : ∀ target, ¬ s.Known a target := by
    intro target hk
    cases hk with
    | pidFile entry hg ha hp => simp [World.readPidFile, h.units] at hp
    | record record ref hget => simp [h.records, h.file] at hget
    | call c request phase hc => exact h.no_call _ _ hc
  exact {
    alone := fun c c' hu => absurd hu.choose_spec.choose_spec.1 (h.no_call _ _)
    request := fun c request phase hc => absurd hc (h.no_call _ _)
    abandons := fun c request phase hc => absurd hc (h.no_call _ _)
    ensure := fun c request phase hc => absurd hc (h.no_call _ _)
    startable := fun c request phase hc => absurd hc (h.no_call _ _)
    held := fun c request phase hc => absurd hc (h.no_call _ _)
    started := fun c request phase hc => absurd hc (h.no_call _ _)
    dirs := fun name text ht => by simp [h.units] at ht
    refs := fun c request phase hc => absurd hc (h.no_call _ _)
    recorded := fun r ref hr => by simp [h.records, h.file] at hr
    live := fun unit pid hp => absurd hp (h.no_sidecar _ _)
    own := fun target hk => absurd hk (unknown _)
    past := fun target hk => absurd hk (unknown _)
    fresh := fun c request args hc => absurd hc (h.no_call _ _)
    agree := fun target hk => absurd hk (unknown _)
    pidFile := fun unit pid hp => absurd hp (h.no_sidecar _ _)
    removing := fun c request purpose target rest ha hc => absurd hc (h.no_call _ _) }

variable {cfg : Config} {a : String} {s t : State} {e : Event} {c : ℕ} {request : Request}
  {phase next : Phase} {target : UnitRef}

lemma Calm.ne_restart (hg : Calm cfg a s e) : e ≠ .restart := by
  rintro rfl
  exact hg

lemma Calm.not_failure {r : Reply} (hg : Calm cfg a s (.reply c r))
    (hcall : s.calls c = some ⟨request, phase⟩) (ha : request.allocationId = a) :
    r.isFailure = false :=
  (hg request phase hcall).1 ha

/-- Nothing new is known of an allocation but the process a step spawns for it. -/
lemma known_step (h : Happens cfg s e t) (hg : Calm cfg a s e) (hk : t.Known a target) :
    s.Known a target ∨ ∃ c request args, e = .reply c (.spawned target.pid) ∧
      s.calls c = some ⟨request, .making args⟩ ∧
      t.calls c = some ⟨request, .writingPid target.pid⟩ ∧
      request.allocationId = a ∧ target.unit = request.unit := by
  cases hk with
  | pidFile entry hgen ha hpid =>
    left
    subst ha
    rcases h.readPidFile_of hgen hpid with hold | ⟨c, request, hcall, hunit⟩
    · exact .pidFile entry hgen rfl hold
    · have hra : request.allocationId = target.unit.allocationId :=
        congrArg UnitId.allocationId hunit.symm
      exact .call c request _ hcall hra (.inl (.held rfl hunit))
  | record record ref hget hx hparse =>
    left
    rcases h.externalRef_of hget hx with ⟨old, hold, hx, -⟩ | ⟨c, request, pid, hcall, rfl, rfl, -⟩
    · exact .record old ref hold hx hparse
    · obtain rfl := eq_of_parseExternalRef hparse
      exact .call c request _ hcall rfl (.inl (.held rfl rfl))
  | call c request next hcall ha hnames =>
    rcases h.call_of hcall with hcall' | hi | ⟨phase, r, changes, rfl, hcall', hm, -⟩
    · exact .inl (.call c request next hcall' ha hnames)
    · rcases hnames with hnames | htarget
      · obtain ⟨destroy, ref, rfl, rfl, hx, hparse⟩ := hnames.of_isInert hi
        rcases h.observing_of hcall with hcall' | rfl
        · exact .inl (.call c _ _ hcall' ha (.inl (.requested rfl hx hparse)))
        · simp [(hg ha).2] at hx
      · simp [Phase.target_of_isInert hi] at htarget
    · rcases hnames with hnames | htarget
      · rcases hm.names_next hnames with h' | ⟨args, rfl, rfl, hunit⟩ |
          ⟨record, ref, hget, hx, hparse⟩ | ⟨entry, generation, hgen, hu, hpid⟩
        · exact .inl (.call c request phase hcall' ha (.inl h'))
        · obtain rfl := hm.writing_of_spawned
          exact .inr ⟨c, request, args, rfl, hcall', hcall, ha, hunit⟩
        · exact .inl (.record record ref (.inl (ha ▸ hget)) hx hparse)
        · exact .inl (.pidFile entry (by rw [hgen, hu]) (by rw [hu, ha]) (ha ▸ hpid))
      · rcases hm.target_next htarget with h' | ⟨purpose, ref, rest, rfl, hparse⟩ |
          ⟨failure, pid, rfl, rfl⟩
        · exact .inl (.call c request phase hcall' ha (.inr h'))
        · exact .inl (.call c request _ hcall' ha (.inl (.ref List.mem_cons_self hparse)))
        · exact .inl (.call c request _ hcall' ha (.inl (.held rfl rfl)))

namespace Orderly

/-- A process that runs is known. -/
lemma known_of_live (ho : Orderly cfg a s) {unit : UnitId} {pid : ℕ}
    (hp : s.world.processes pid = some (.sidecar unit)) (ha : unit.allocationId = a) :
    s.Known a ⟨unit, pid⟩ := by
  rcases ho.pidFile unit pid hp ha with hfile | ⟨c, request, hcall, rfl⟩
  · refine .pidFile (unitDirName unit.generation) ?_ ha ?_
    · rw [generationOf_unitDirName, if_pos (ho.live unit pid hp ha).2.1]
    · rw [← ha]
      exact hfile
  · exact .call c request _ hcall ha (.inl (.held rfl rfl))

/-- Two ensures of the allocation that have not settled are the same. -/
lemma starting_eq (ho : Orderly cfg a s) {c' : ℕ} {ensure : EnsureSidecarRequest}
    {request' : Request} {phase' : Phase} (hcall : s.calls c = some ⟨.ensure ensure, phase⟩)
    (ha : ensure.allocationId = a) (hp : phase.isExecuting)
    (hcall' : s.calls c' = some ⟨request', phase'⟩) (ha' : request'.allocationId = a)
    (hp' : phase'.isStarting) : c' = c := by
  obtain ⟨ensure', rfl⟩ := ho.ensure c' request' phase' hcall' ha' hp'
  exact ho.alone c' c
    (State.Executing.unsettled ⟨ensure', phase', hcall', ha', Phase.isExecuting_of_isStarting hp'⟩)
    (State.Executing.unsettled ⟨ensure, phase, hcall, ha, hp⟩)

/-- An ensure that has not settled had not settled before, or is new. -/
lemma unsettled_step (h : Happens cfg s e t) (hu : t.Unsettled c a) :
    s.Unsettled c a ∨ ∃ ensure, e = .call c (.ensure ensure) ∧ ensure.allocationId = a := by
  obtain ⟨ensure, phase, hcall, ha, hp⟩ := hu
  rcases h.request_of hcall with ⟨phase', hcall'⟩ | ⟨he, -⟩
  · refine .inl ⟨ensure, phase', hcall', ha, ?_⟩
    rintro result rfl
    exact hp result (h.returned_next hcall' hcall)
  · exact .inr ⟨ensure, he, ha⟩

lemma alone_step (ho : Orderly cfg a s) (hg : Calm cfg a s e) (h : Happens cfg s e t) {c' : ℕ}
    (hu : t.Unsettled c a) (hu' : t.Unsettled c' a) : c = c' := by
  rcases unsettled_step h hu with hu | ⟨ensure, rfl, ha⟩ <;>
    rcases unsettled_step h hu' with hu' | ⟨ensure', he, ha'⟩
  · exact ho.alone c c' hu hu'
  · subst he
    exact absurd hu ((hg ha').2 c)
  · exact absurd hu' ((hg ha).2 c')
  · exact (Event.call.inj he).1

/-- A start goes on, or `observeEnsure` has just let it through. -/
lemma starting_step (h : Happens cfg s e t) (hcall : t.calls c = some ⟨request, next⟩)
    (hp : next.isStarting) :
    (∃ phase, s.calls c = some ⟨request, phase⟩ ∧ phase.isStarting) ∨
    ∃ ensure now record args, request = .ensure ensure ∧ e = .reply c (.stored now) ∧
      s.calls c = some ⟨request, .observing⟩ ∧ next = .making args ∧
      (observeEnsure now s.world.records request.observeArgs).1 = .observed record ∧
      record.externalRef = none ∧ spawnArgsFor cfg ensure = .ok args ∧
      t.world.records = (StoreOp.observeEnsure request.observeArgs).apply now s.world.records := by
  rcases h.call_of hcall with hcall' | hi | ⟨phase, r, changes, rfl, hcall', hm, hw⟩
  · exact .inl ⟨next, hcall', hp⟩
  · exact absurd hp (Phase.not_isStarting_of_isInert hi)
  · rcases hm.starting_next hp with hp | ⟨args, rfl⟩
    · exact .inl ⟨phase, hcall', hp⟩
    · obtain ⟨ensure, now, record, rfl, rfl, rfl, ho, hx, hargs⟩ := hm.making_next
      obtain ⟨op, hop, hrec⟩ := hm.stored
      obtain rfl := Option.some.inj hop
      exact .inr ⟨ensure, now, record, args, rfl, rfl, hcall', rfl, ho, hx, hargs, by rw [hw, hrec]⟩

/-- Every start the allocation has after a step is startable, and its record has come to it. -/
lemma startable_step (ho : Orderly cfg a s) (hg : Calm cfg a s e) (h : Happens cfg s e t)
    (hcall : t.calls c = some ⟨request, next⟩) (ha : request.allocationId = a)
    (hp : next.isStarting) :
    (∃ ensure, request = .ensure ensure) ∧ Startable cfg a ∧
      ∃ r, t.world.records.get a = some r ∧ request.generation ≤ r.generation := by
  rcases starting_step h hcall hp with ⟨phase, hcall', hp'⟩ |
    ⟨ensure, now, record, args, rfl, -, -, -, hobs, -, hargs, hrec⟩
  · obtain ⟨r, hr, hle⟩ := ho.started c request phase hcall' ha hp'
    obtain ⟨r', hr', hf⟩ := h.evolves hg.ne_restart a r hr
    exact ⟨ho.ensure c request phase hcall' ha hp', ho.startable c request phase hcall' ha hp',
      r', hr', hle.trans hf.generation⟩
  · obtain ⟨hget, hgen, -⟩ := get_apply_observeEnsure hobs
    refine ⟨⟨ensure, rfl⟩, ?_, record, by rw [hrec, ← ha]; exact hget, hgen.ge⟩
    rw [← ha]
    exact spawnArgsFor_ok_iff.1 ⟨args, hargs⟩

lemma held_step (ho : Orderly cfg a s) (h : Happens cfg s e t)
    (hcall : t.calls c = some ⟨request, next⟩) (ha : request.allocationId = a) {pid : ℕ}
    (hp : next.held = some pid) : 0 < pid := by
  rcases h.call_of hcall with hcall' | hi | ⟨phase, r, changes, rfl, hcall', hm, -⟩
  · exact ho.held c request next hcall' ha pid hp
  · simp [Phase.held_of_isInert hi] at hp
  · rcases hm.held_next hp with hp | ⟨args, rfl, rfl⟩
    · exact ho.held c request phase hcall' ha pid hp
    · cases hm with
      | spawned pos => exact pos
      | notMade leaves failed => simp [Reply.isFailure] at failed

lemma dirs_step (ho : Orderly cfg a s) (h : Happens cfg s e t) {name : String}
    {text : Option String} (ht : t.world.units.get (a, name) = some text) :
    (∃ k, name = unitDirName k) ∧ Startable cfg a := by
  have made : ∀ {c : ℕ} {request : Request} {phase : Phase}, phase.isStarting →
      s.calls c = some ⟨request, phase⟩ → (a, name) = unitDirKey request.unit →
      (∃ k, name = unitDirName k) ∧ Startable cfg a := by
    intro c request phase hp hcall hkey
    obtain ⟨hra, rfl⟩ := Prod.mk.inj hkey
    exact ⟨⟨_, rfl⟩, ho.startable c request phase hcall hra.symm hp⟩
  rcases h.units with hu | ⟨c, request, args, hcall, hu⟩ | ⟨c, request, pid, hcall, -, hu⟩ |
    ⟨c, request, purpose, target, rest, rfl, hcall, -, hu⟩ <;> rw [hu] at ht
  · exact ho.dirs name text ht
  · split at ht
    exacts [made rfl hcall (by assumption), ho.dirs name text ht]
  · split at ht
    exacts [made rfl hcall (by assumption), ho.dirs name text ht]
  · split at ht
    exacts [by simp at ht, ho.dirs name text ht]

/-- A pid that is read from the directory of the allocation makes a reference that parses. -/
lemma parses_read (ho : Orderly cfg a s) {entry : String} {generation pid : ℕ}
    (hpid : s.world.readPidFile (a, entry) = some pid) :
    (parseExternalRef (externalRefOf a generation pid)).isSome := by
  obtain ⟨text, ht⟩ : ∃ text, s.world.units.get (a, entry) = some text := by
    cases ht : s.world.units.get (a, entry) with
    | none => simp [World.readPidFile, ht] at hpid
    | some text => exact ⟨text, rfl⟩
  rw [parseExternalRef_externalRefOf (ho.dirs entry text ht).2.1 (World.pos_of_readPidFile hpid)]
  rfl

/-- So does the pid an ensure of it holds. -/
lemma parses_held (ho : Orderly cfg a s) (hcall : s.calls c = some ⟨request, phase⟩)
    (ha : request.allocationId = a) {pid : ℕ} (hp : phase.held = some pid) :
    (parseExternalRef (externalRefOfPid request pid)).isSome := by
  have hm := (ho.startable c request phase hcall ha (Phase.isStarting_of_held hp)).1
  rw [externalRefOfPid, parseExternalRef_externalRefOf (ha ▸ hm)
    (ho.held c request phase hcall ha pid hp)]
  rfl

lemma refs_step (ho : Orderly cfg a s) (h : Happens cfg s e t)
    (hcall : t.calls c = some ⟨request, next⟩) (ha : request.allocationId = a) {ref : String}
    (href : ref ∈ next.refs) : (parseExternalRef ref).isSome := by
  rcases h.call_of hcall with hcall' | hi | ⟨phase, r, changes, rfl, hcall', hm, -⟩
  · exact ho.refs c request next hcall' ha ref href
  · simp [Phase.refs_of_isInert hi] at href
  · rcases hm.refs_next href with href | ⟨destroy, now, record, rfl, rfl, rfl, -, hres⟩ |
      ⟨pid, rfl, rfl⟩ | ⟨purpose, entry, entries, refs, generation, pid, rfl, rfl, -, hpid, -, rfl⟩
    · exact ho.refs c request phase hcall' ha ref href
    · rw [resolvedRef, (ho.request c _ _ hcall' ha).2 destroy rfl] at hres
      obtain ⟨r, hr, hx⟩ := Option.bind_eq_some_iff.mp hres
      exact ho.recorded r ref (.inl (ha ▸ hr)) hx
    · exact ho.parses_held hcall' ha rfl
    · rw [ha] at hpid ⊢
      exact ho.parses_read hpid

lemma recorded_step (ho : Orderly cfg a s) (h : Happens cfg s e t) {r : AllocationRecord}
    {ref : String} (hr : t.world.records.get a = some r ∨ t.world.file.get a = some r)
    (hx : r.externalRef = some ref) : (parseExternalRef ref).isSome := by
  rcases h.externalRef_of hr hx with ⟨old, hold, hx, -⟩ | ⟨c, request, pid, hcall, rfl, rfl, -⟩
  · exact ho.recorded old ref hold hx
  · exact ho.parses_held hcall rfl rfl

/-- A unit that is known is past its start: its ensure holds its process, or the record rules
another start out. -/
lemma past_step (ho : Orderly cfg a s) (hg : Calm cfg a s e) (h : Happens cfg s e t)
    (hk : t.Known a target) : Covered t.world.records target.unit ∨
      ∃ c request phase, t.calls c = some ⟨request, phase⟩ ∧ request.unit = target.unit ∧
        phase.held.isSome := by
  rcases known_step h hg hk with hk | ⟨c, request, args, -, -, hcall, -, hunit⟩
  · have ha := ho.own target hk
    rcases ho.past target hk with hc | ⟨c, request, phase, hcall, hunit, hheld⟩
    · exact .inl (hc.mono (h.evolves hg.ne_restart))
    · obtain ⟨pid, hp⟩ := Option.isSome_iff_exists.mp hheld
      have hra : request.allocationId = a := (congrArg UnitId.allocationId hunit).trans ha
      rcases h.call_next hcall (Phase.isExecuting_of_held hp) with
        rfl | h' | ⟨r, next, changes, rfl, hcall', hm, hw⟩
      · exact hg.elim
      · exact .inr ⟨c, request, phase, h', hunit, hheld⟩
      · rcases hm.held_cases (hg.not_failure hcall hra) (ho.abandons c request phase hcall hra) hp
          with ⟨-, rfl⟩ | ⟨rfl, now, rfl, -⟩
        · exact .inr ⟨c, request, _, hcall', hunit, rfl⟩
        · obtain ⟨op, hop, hrec⟩ := hm.stored
          obtain rfl := Option.some.inj hop
          left
          rw [hw, hrec, ← hunit]
          refine covered_recordUnit ?_
          rw [show (recordUnitArgs request pid).allocationId = a from hra]
          exact ho.started c request _ hcall hra rfl
  · exact .inr ⟨c, request, _, hcall, hunit.symm, rfl⟩

/-- A unit about to be spawned is not known yet. -/
lemma fresh_step (ho : Orderly cfg a s) (hg : Calm cfg a s e) (h : Happens cfg s e t)
    {args : SpawnSidecarProcessArgs} (hcall : t.calls c = some ⟨request, .making args⟩)
    (hk : t.Known a target) : target.unit ≠ request.unit := by
  intro hunit
  rcases h.call_of hcall with hcall' | hi | ⟨phase, r, changes, rfl, hcall', hm, -⟩
  · rcases known_step h hg hk with hk | ⟨c', request', args', rfl, hc, ht, ha, hu⟩
    · exact ho.fresh c request args hcall' target hk hunit
    · -- the ensure that spawned the process is this one, which has not
      have hra : request.allocationId = a :=
        (congrArg UnitId.allocationId (hunit.symm.trans hu)).trans ha
      obtain ⟨ensure, rfl⟩ := ho.ensure c request _ hcall' hra rfl
      obtain rfl := ho.starting_eq hcall' hra rfl hc ha rfl
      simp [hcall] at ht
  · simp [Phase.isInert] at hi
  · obtain ⟨ensure, now, record, rfl, rfl, rfl, hobs, hx, -⟩ := hm.making_next
    rcases known_step h hg hk with hk | ⟨_, _, _, he, -⟩
    · have ha : ensure.allocationId = a := by
        rw [← ho.own target hk, hunit]; rfl
      rcases ho.past target hk with hc | ⟨c', request', phase', hcall₂, hu, hheld⟩
      · refine not_covered_of_observed hobs hx ?_
        rw [hunit] at hc
        exact hc
      · obtain ⟨pid, hp⟩ := Option.isSome_iff_exists.mp hheld
        obtain rfl := ho.starting_eq hcall' ha rfl hcall₂
          ((congrArg UnitId.allocationId (hu.trans hunit)).trans ha) (Phase.isStarting_of_held hp)
        obtain ⟨-, rfl⟩ := by simpa using hcall'.symm.trans hcall₂
        simp [Phase.held] at hp
    · simp at he

lemma own_step (ho : Orderly cfg a s) (hg : Calm cfg a s e) (h : Happens cfg s e t)
    (hk : t.Known a target) : target.unit.allocationId = a := by
  rcases known_step h hg hk with hk | ⟨c, request, args, -, -, -, ha, hunit⟩
  · exact ho.own target hk
  · rw [hunit]
    exact ha

/-- What is known of a unit is the pid of its process. -/
lemma agree_step (ho : Orderly cfg a s) (hg : Calm cfg a s e) (h : Happens cfg s e t)
    (hk : t.Known a target) {pid : ℕ}
    (hp : t.world.processes pid = some (.sidecar target.unit)) : pid = target.pid := by
  have ha := ho.own_step hg h hk
  rcases h.sidecar hp with hp' | ⟨-, -, c, request, args, rfl, hcall, -, hunit⟩ <;>
    rcases known_step h hg hk with hk' | ⟨c', request', args', he, hcall', -, -, hunit'⟩
  · exact ho.agree target hk' pid hp'
  · exact absurd hunit'
      (ho.fresh c' request' args' hcall' ⟨target.unit, pid⟩ (ho.known_of_live hp' ha))
  · exact absurd hunit (ho.fresh c request args hcall target hk')
  · exact (Reply.spawned.inj (Event.reply.inj he).2)

/-- A removal spares the directory of a unit that runs. -/
lemma spares (ho : Orderly cfg a s) {c : ℕ} {purpose : Purpose} {rest : List String} {r : Reply}
    (hg : Calm cfg a s (.reply c r))
    (hcall : s.calls c = some ⟨request, .removing purpose target rest⟩) {unit : UnitId} {pid : ℕ}
    (hp : s.world.processes pid = some (.sidecar unit)) (ha : unit.allocationId = a)
    (hsome : s.world.units.get (unitDirKey unit) ≠ none) :
    ¬ takesAway cfg.allocationsDir target.unit (unitDirKey unit) := by
  intro htakes
  by_cases hra : request.allocationId = a
  · have hta := ho.own target (.call c request _ hcall hra (.inr rfl))
    have hn : unitDirName unit.generation = unitDirName target.unit.generation := by
      rw [unitDirKey, ha, ← hta] at htakes
      exact World.takesAway_same.1 htakes
    have hunit : unit = target.unit := World.unitDirKey_injective (Prod.ext (ha.trans hta.symm) hn)
    exact ho.removing c request purpose target rest hra hcall pid (hunit ▸ hp)
  · rw [unitDirKey, ha] at htakes hsome
    exact hsome ((hg request _ hcall).2 hra purpose target rest rfl _ htakes)

/-- The pid file of a unit that runs names its process once it is written. -/
lemma pidFile_step (ho : Orderly cfg a s) (hg : Calm cfg a s e) (h : Happens cfg s e t)
    {unit : UnitId} {pid : ℕ} (hp : t.world.processes pid = some (.sidecar unit))
    (ha : unit.allocationId = a) :
    t.world.readPidFile (unitDirKey unit) = some pid ∨ ∃ c request,
      t.calls c = some ⟨request, .writingPid pid⟩ ∧ request.unit = unit := by
  rcases h.sidecar hp with hp' | ⟨-, -, c, request, args, rfl, hcall, ht, rfl⟩
  · rcases ho.pidFile unit pid hp' ha with hfile | ⟨c, request, hcall, rfl⟩
    · refine .inl (h.readPidFile_kept hfile ?_ ?_)
      · rintro c request pid' hcall rfl
        have hk : s.Known a ⟨request.unit, pid'⟩ :=
          .call c request _ hcall ha (.inl (.held rfl rfl))
        exact (ho.agree _ hk pid hp').symm
      · rintro c request purpose target rest rfl hcall hsome
        exact ho.spares hg hcall hp' ha hsome
    · rcases h.call_next hcall rfl with rfl | h' | ⟨r, next, changes, rfl, hcall', hm, hw⟩
      · exact hg.elim
      · exact .inr ⟨c, request, h', rfl⟩
      · obtain rfl := hm.writing_next (hg.not_failure hcall ha)
        obtain ⟨-, hu⟩ := hm.recording_next
        left
        simp [World.readPidFile, hw, hu, pidOfText_pidFileText (ho.live _ _ hp' ha).1]
  · exact .inr ⟨c, request, ht, rfl⟩

/-- No process runs for a unit whose directory is about to be removed. -/
lemma removing_step (ho : Orderly cfg a s) (hg : Calm cfg a s e) (h : Happens cfg s e t)
    {purpose : Purpose} {rest : List String} (ha : request.allocationId = a)
    (hcall : t.calls c = some ⟨request, .removing purpose target rest⟩) {pid : ℕ}
    (hp : t.world.processes pid = some (.sidecar target.unit)) : False := by
  rcases h.call_of hcall with hcall' | hi | ⟨phase, r, changes, rfl, hcall', hm, hw⟩
  · rcases h.sidecar hp with hp' | ⟨-, -, c', request', args', -, hcall₂, -, hu⟩
    · exact ho.removing c request purpose target rest ha hcall' pid hp'
    · exact ho.fresh c' request' args' hcall₂ target (.call c request _ hcall' ha (.inr rfl)) hu
  · simp [Phase.isInert] at hi
  · obtain rfl := ho.agree_step hg h (.call c request _ hcall ha (.inr rfl)) hp
    rw [hw, hm.removing_next] at hp
    simp at hp

/-- **One step keeps the allocation orderly.** -/
theorem step (ho : Orderly cfg a s) (hg : Calm cfg a s e) (h : Happens cfg s e t) :
    Orderly cfg a t where
  alone c c' hu hu' := ho.alone_step hg h hu hu'
  request c request phase hcall ha := by
    rcases h.request_of hcall with ⟨phase', hcall'⟩ | ⟨rfl, -⟩
    · exact ho.request c request phase' hcall' ha
    · cases request with
      | ensure ensure => exact ⟨(hg ha).1, by simp⟩
      | destroy destroy => exact ⟨(hg ha).1, fun _ h => by cases h; exact (hg ha).2⟩
  abandons c request phase hcall ha := by
    rcases h.call_of hcall with hcall' | hi | ⟨phase', r, changes, rfl, hcall', hm, -⟩
    · exact ho.abandons c request phase hcall' ha
    · exact Phase.not_isAbandoning_of_isInert hi
    · exact fun hn => ho.abandons c request phase' hcall' ha
        (hm.isAbandoning_next (hg.not_failure hcall' ha) hn)
  ensure c request phase hcall ha hp := (ho.startable_step hg h hcall ha hp).1
  startable c request phase hcall ha hp := (ho.startable_step hg h hcall ha hp).2.1
  held c request phase hcall ha pid hp := ho.held_step h hcall ha hp
  started c request phase hcall ha hp := (ho.startable_step hg h hcall ha hp).2.2
  dirs name text ht := ho.dirs_step h ht
  refs c request phase hcall ha ref href := ho.refs_step h hcall ha href
  recorded r ref hr hx := ho.recorded_step h hr hx
  live unit pid hp ha := by
    rcases h.sidecar hp with hp' | ⟨-, hpos, c, request, args, -, hcall, -, rfl⟩
    · exact ho.live unit pid hp' ha
    · exact ⟨hpos, (ho.request c request _ hcall ha).1, ho.startable c request _ hcall ha rfl⟩
  own target hk := ho.own_step hg h hk
  past target hk := ho.past_step hg h hk
  fresh c request args hcall target hk := ho.fresh_step hg h hcall hk
  agree target hk pid hp := ho.agree_step hg h hk hp
  pidFile unit pid hp ha := ho.pidFile_step hg h hp ha
  removing c request purpose target rest ha hcall pid hp := ho.removing_step hg h ha hcall hp

end Orderly

lemma Reachable.orderly (h : Reachable cfg (Calm cfg a) s) : Orderly cfg a s := by
  obtain ⟨s₀, h0, hr⟩ := h
  exact hr.invariant (orderly_initial h0) fun _ _ _ ho hg hst => ho.step hg (step_happens hst)

end Workbench.Provisioner
