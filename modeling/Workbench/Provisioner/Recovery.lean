import Workbench.Provisioner.SpawnOnce

/-!
What is left of a start after failures and crashes of the hub.

Spawn, pid file and record are three effects. As long as no process is lost before its record,
retrying an ensure never starts a unit twice, and the pid file of a unit names its process from
the moment it is written to the moment the process is gone.
-/

namespace Workbench.Provisioner

open Workbench.Lib Workbench.Lib.Transition

/-- Ensures only, each made after the earlier ones of its allocation have settled. -/
def SequentialEnsures (s : State) : Event → Prop
  | .call _ (.ensure request) => ∀ c, ¬ s.Unsettled c request.allocationId
  | .call _ (.destroy _) => False
  | _ => True

/-- A removal takes no unit directory of another allocation away. An allocation id such as `..`,
which names no directory of its own, can do so. -/
def RemovesOwn (cfg : Config) (s : State) : Event → Prop
  | .reply c .done => ∀ request purpose target rest,
      s.calls c = some ⟨request, .removing purpose target rest⟩ → ∀ dir,
      takesAway cfg.allocationsDir target.unit dir → (s.world.units.get dir).isSome →
        dir.1 = target.unit.allocationId
  | _ => True

namespace State

/-- The pid file of a unit, or its recorded reference, names its process. -/
def Discoverable (s : State) (unit : UnitId) (pid : ℕ) : Prop :=
  s.world.readPidFile (unitDirKey unit) = some pid ∨
  ∃ r ref, s.world.records.get unit.allocationId = some r ∧ r.externalRef = some ref ∧
    parseExternalRef ref = some ⟨unit, pid⟩

/-- An ensure has spawned the process and its pid file is not written yet. -/
def Unwritten (s : State) (unit : UnitId) (pid : ℕ) : Prop :=
  ∃ c request phase, s.calls c = some ⟨request, phase⟩ ∧ request.unit = unit ∧
    phase.held = some pid ∧ phase ≠ .recording pid

lemma Unwritten.holds {s : State} {unit : UnitId} {pid : ℕ} (h : s.Unwritten unit pid) :
    s.Holds unit pid := by
  obtain ⟨c, request, phase, hc, hu, hp, -⟩ := h
  exact ⟨c, request, phase, hc, hu, hp⟩

/-- A unit that a call names is one of its allocation, and only the named process runs for it. -/
def Only (s : State) (request : Request) (target : UnitRef) : Prop :=
  target.unit.allocationId = request.allocationId ∧ ∀ pid,
    s.world.processes pid = some (.sidecar target.unit) → pid = target.pid

end State

/-- The pid file of a unit names its process, and what is stopped or removed is named right. -/
structure Recoverable (s : State) : Prop where
  ensures : ∀ c request phase, s.calls c = some ⟨request, phase⟩ →
    ∃ ensure, request = .ensure ensure
  dirs : ∀ dir text, s.world.units.get dir = some text → ∃ unit, dir = unitDirKey unit
  positive : ∀ pid unit, s.world.processes pid = some (.sidecar unit) → 0 < pid
  pidFile : ∀ pid unit, s.world.processes pid = some (.sidecar unit) →
    s.world.readPidFile (unitDirKey unit) = some pid ∨ s.Unwritten unit pid
  refs : ∀ c request phase, s.calls c = some ⟨request, phase⟩ → ∀ ref ∈ phase.refs, ∀ target,
    parseExternalRef ref = some target → s.Only request target
  target : ∀ c request phase, s.calls c = some ⟨request, phase⟩ → ∀ target,
    phase.target = some target → s.Only request target
  removing : ∀ c request purpose target rest,
    s.calls c = some ⟨request, .removing purpose target rest⟩ → ∀ pid,
      s.world.processes pid ≠ some (.sidecar target.unit)

lemma recoverable_initial {s : State} (h : Initial s) : Recoverable s := by
  exact {
    ensures := fun c request phase hc => absurd hc (h.no_call _ _)
    dirs := fun dir text ht => by simp [h.units] at ht
    positive := fun pid unit hp => absurd hp (h.no_sidecar _ _)
    pidFile := fun pid unit hp => absurd hp (h.no_sidecar _ _)
    refs := fun c request phase hc => absurd hc (h.no_call _ _)
    target := fun c request phase hc => absurd hc (h.no_call _ _)
    removing := fun c request purpose target rest hc => absurd hc (h.no_call _ _) }

variable {cfg : Config} {s t : State} {e : Event}

lemma SequentialEnsures.seesUnsettled (h : SequentialEnsures s e) : SeesUnsettled s e := by
  cases e with
  | call c request =>
    cases request with
    | ensure request => exact fun c hc => absurd hc (h c)
    | destroy request => trivial
  | _ => trivial

namespace Phase

lemma of_mem_refs {phase : Phase} {ref : String} (h : ref ∈ phase.refs) :
    phase.isExecuting ∧ ∀ args, phase ≠ .making args := by
  cases phase <;> simp_all [refs, isExecuting]

lemma of_target {phase : Phase} {target : UnitRef} (h : phase.target = some target) :
    phase.isExecuting ∧ ∀ args, phase ≠ .making args := by
  cases phase <;> simp_all [Phase.target, isExecuting]

end Phase

namespace Recoverable

variable {request : Request} {phase : Phase} {c : ℕ}

/-- A call past its start shares its allocation with no ensure that starts a unit. -/
lemma not_making (hr : Recoverable s) (hc : Claimed s) (hs : Serial s) {c' : ℕ}
    {request' : Request} {args : SpawnSidecarProcessArgs}
    (h : s.calls c = some ⟨request, phase⟩)
    (hp : phase.isExecuting ∧ ∀ args, phase ≠ .making args)
    (h' : s.calls c' = some ⟨request', .making args⟩) :
    request'.allocationId ≠ request.allocationId := by
  intro ha
  obtain rfl := hc.starting_unique hs h' h rfl (hr.ensures c request phase h) hp.1 ha
  obtain ⟨-, rfl⟩ := by simpa using h.symm.trans h'
  exact hp.2 args rfl

/-- The names a call has stay right as long as it stays with them. -/
lemma only_step (hr : Recoverable s) (hc : Claimed s) (hs : Serial s) (h : Happens cfg s e t)
    (hcall : s.calls c = some ⟨request, phase⟩)
    (hp : phase.isExecuting ∧ ∀ args, phase ≠ .making args) {target : UnitRef}
    (ho : s.Only request target) : t.Only request target := by
  refine ⟨ho.1, fun pid hpid => ?_⟩
  rcases h.sidecar hpid with hpid' | ⟨-, -, c', request', args', -, hcall', -, hu⟩
  · exact ho.2 pid hpid'
  · have ha := congrArg UnitId.allocationId hu
    exact absurd (ha.symm.trans ho.1) (hr.not_making hc hs hcall hp hcall')

/-- What a call finds in the directory of its allocation names the unit's process. -/
lemma only_read (hr : Recoverable s) (hc : Claimed s) (hs : Serial s)
    (hcall : s.calls c = some ⟨request, phase⟩) (hp : phase.isExecuting)
    (hheld : phase.held = none) {entry : String} {generation pid : ℕ}
    (hg : generationOf entry = some generation)
    (hpid : s.world.readPidFile (request.allocationId, entry) = some pid) :
    s.Only request ⟨⟨request.allocationId, generation⟩, pid⟩ := by
  refine ⟨rfl, fun pid' hlive => ?_⟩
  rcases hr.pidFile pid' _ hlive with hfile | ⟨c', request', phase', hcall', hu, hheld', -⟩
  · obtain ⟨text, ht⟩ : ∃ text, s.world.units.get (request.allocationId, entry) = some text := by
      cases ht : s.world.units.get (request.allocationId, entry) with
      | none => simp [World.readPidFile, ht] at hpid
      | some text => exact ⟨text, rfl⟩
    obtain ⟨unit, hunit⟩ := hr.dirs _ _ ht
    obtain ⟨ha, rfl⟩ := Prod.mk.inj hunit
    -- the entry is the directory of the generation it is read as
    have hgen : unit.generation = generation := by
      rw [generationOf_unitDirName] at hg
      split at hg
      · exact Option.some.inj hg
      · simp at hg
    subst hgen
    rw [unitDirKey, hpid] at hfile
    exact (Option.some.inj hfile).symm
  · obtain rfl := hc.starting_unique hs hcall' hcall (Phase.isStarting_of_held hheld')
      (hr.ensures c request phase hcall) hp (congrArg UnitId.allocationId hu)
    obtain ⟨-, rfl⟩ := by simpa using hcall.symm.trans hcall'
    simp [hheld] at hheld'

/-- The references of a call after a step are right. -/
lemma refs_step (hr : Recoverable s) (hc : Claimed s) (hs : Serial s) (h : Happens cfg s e t)
    (hcall : t.calls c = some ⟨request, phase⟩) {ref : String} (href : ref ∈ phase.refs)
    {target : UnitRef} (hparse : parseExternalRef ref = some target) :
    t.Only request target := by
  rcases h.call_of hcall with hcall' | hi | ⟨phase', r, changes, rfl, hcall', hm, -⟩
  · exact hr.only_step hc hs h hcall' (Phase.of_mem_refs href)
      (hr.refs c request phase hcall' ref href target hparse)
  · simp [Phase.refs_of_isInert hi] at href
  · rcases hm.refs_next href with href' | ⟨destroy, now, record, rfl, -⟩ | ⟨pid, rfl, rfl⟩ |
      ⟨purpose, entry, entries, refs, generation, pid, rfl, rfl, hg, hpid, -, rfl⟩
    · exact hr.only_step hc hs h hcall' (Phase.of_mem_refs href')
        (hr.refs c request phase' hcall' ref href' target hparse)
    · obtain ⟨ensure, hen⟩ := hr.ensures c _ _ hcall'
      simp at hen
    · obtain rfl := eq_of_parseExternalRef hparse
      refine hr.only_step hc hs h hcall' ⟨rfl, by simp⟩ ⟨rfl, fun pid' hlive => ?_⟩
      exact hc.held c request _ pid pid' hcall' rfl hlive
    · obtain rfl := eq_of_parseExternalRef hparse
      exact hr.only_step hc hs h hcall' ⟨rfl, by simp⟩
        (hr.only_read hc hs hcall' rfl rfl hg hpid)

lemma target_step (hr : Recoverable s) (hc : Claimed s) (hs : Serial s) (h : Happens cfg s e t)
    (hcall : t.calls c = some ⟨request, phase⟩) {target : UnitRef}
    (ht : phase.target = some target) : t.Only request target := by
  rcases h.call_of hcall with hcall' | hi | ⟨phase', r, changes, rfl, hcall', hm, -⟩
  · exact hr.only_step hc hs h hcall' (Phase.of_target ht)
      (hr.target c request phase hcall' target ht)
  · simp [Phase.target_of_isInert hi] at ht
  · rcases hm.target_next ht with ht' | ⟨purpose, ref, rest, rfl, hparse⟩ | ⟨failure, pid, rfl, rfl⟩
    · exact hr.only_step hc hs h hcall' (Phase.of_target ht')
        (hr.target c request phase' hcall' target ht')
    · exact hr.only_step hc hs h hcall' ⟨rfl, by simp⟩
        (hr.refs c request _ hcall' ref (List.mem_cons_self) target hparse)
    · refine hr.only_step hc hs h hcall' ⟨rfl, by simp⟩ ⟨rfl, fun pid' hlive => ?_⟩
      exact hc.held c request _ pid pid' hcall' rfl hlive

/-- The pid file of a unit that ran before the step goes on naming its process. -/
lemma pidFile_step (hr : Recoverable s) (hc : Claimed s) (h : Happens cfg s e t)
    (ho : RemovesOwn cfg s e) {unit : UnitId} {pid : ℕ}
    (hp : s.world.processes pid = some (.sidecar unit))
    (hfile : s.world.readPidFile (unitDirKey unit) = some pid) :
    t.world.readPidFile (unitDirKey unit) = some pid := by
  refine h.readPidFile_kept hfile ?_ ?_
  · rintro c request pid' hcall rfl
    exact (hc.held c request _ pid' pid hcall rfl hp).symm
  · -- the directory of a unit that runs is not the one removed
    rintro c request purpose target rest rfl hcall hsome htakes
    have ha : unit.allocationId = target.unit.allocationId :=
      ho request purpose target rest hcall _ htakes (Option.isSome_iff_ne_none.mpr hsome)
    have hn : unitDirName unit.generation = unitDirName target.unit.generation := by
      rw [unitDirKey, ha] at htakes
      exact World.takesAway_same.1 htakes
    have hunit : unit = target.unit := World.unitDirKey_injective (Prod.ext ha hn)
    exact hr.removing c request purpose target rest hcall pid (hunit ▸ hp)

/-- **One step keeps every pid file right.** -/
theorem step (hr : Recoverable s) (hc : Claimed s) (hs : Serial s) (hg : SequentialEnsures s e)
    (hk : KeepsHeld s e) (ho : RemovesOwn cfg s e) (h : Happens cfg s e t) : Recoverable t where
  ensures c request phase hcall := by
    rcases h.request_of hcall with ⟨phase', hcall'⟩ | ⟨rfl, -⟩
    · exact hr.ensures c request phase' hcall'
    · cases request with
      | ensure request => exact ⟨request, rfl⟩
      | destroy request => exact hg.elim
  dirs dir text ht := by
    rcases h.units with hu | ⟨c, request, args, hcall, hu⟩ | ⟨c, request, pid, hcall, -, hu⟩ |
      ⟨c, request, purpose, target, rest, rfl, hcall, -, hu⟩ <;> rw [hu] at ht
    · exact hr.dirs dir text ht
    · split at ht
      exacts [⟨_, by assumption⟩, hr.dirs dir text ht]
    · split at ht
      exacts [⟨_, by assumption⟩, hr.dirs dir text ht]
    · split at ht
      exacts [by simp at ht, hr.dirs dir text ht]
  positive pid unit hp := by
    rcases h.sidecar hp with hp' | ⟨-, hpos, -⟩
    exacts [hr.positive pid unit hp', hpos]
  pidFile pid unit hp := by
    rcases h.sidecar hp with hp' | ⟨-, -, c, request, args, rfl, hcall, ht, rfl⟩
    · rcases hr.pidFile pid unit hp' with hfile | ⟨c, request, phase, hcall, rfl, hheld, hne⟩
      · exact .inl (hr.pidFile_step hc h ho hp' hfile)
      · rcases h.call_next hcall (Phase.isExecuting_of_held hheld) with
          rfl | h' | ⟨r, next, changes, rfl, hcall', hm, hw⟩
        · exact absurd hp' (hk _ _ ⟨c, request, phase, hcall, rfl, hheld⟩)
        · exact .inr ⟨c, request, phase, h', rfl, hheld, hne⟩
        · rcases hm.held_lost hheld with h' | ⟨now, rfl, rfl⟩ | h' | ⟨hfail, hne'⟩
          · by_cases hrec : next = .recording pid
            · subst hrec
              left
              obtain ⟨-, hu⟩ := hm.recording_next
              simp [World.readPidFile, hw, hu, pidOfText_pidFileText (hr.positive _ _ hp')]
            · exact .inr ⟨c, request, next, hcall', rfl, h', hrec⟩
          · exact absurd rfl hne
          · rw [hw, h'] at hp
            simp at hp
          · rcases hk hfail request phase pid hcall hheld with h' | h'
            · exact absurd h' hne'
            · exact absurd hp' h'
    · exact .inr ⟨c, request, _, ht, rfl, rfl, by simp⟩
  refs c request phase hcall ref href target hparse := hr.refs_step hc hs h hcall href hparse
  target c request phase hcall target ht := hr.target_step hc hs h hcall ht
  removing c request purpose target rest hcall pid hp := by
    have honly : t.Only request target := hr.target_step hc hs h hcall rfl
    rcases h.call_of hcall with hcall' | hi | ⟨phase', r, changes, rfl, hcall', hm, hw⟩
    · have := hr.only_step hc hs h hcall' (Phase.of_target rfl)
        (hr.target c request _ hcall' target rfl)
      rcases h.sidecar hp with hp' | ⟨-, -, c', request', args', -, hcall₂, -, hu⟩
      · exact hr.removing c request purpose target rest hcall' pid hp'
      · have ha := congrArg UnitId.allocationId hu
        exact absurd (ha.symm.trans honly.1) (hr.not_making hc hs hcall' ⟨rfl, by simp⟩ hcall₂)
    · simp [Phase.isInert] at hi
    · have hdead := hm.removing_next
      obtain rfl := honly.2 pid hp
      rw [hw, hdead] at hp
      simp at hp

end Recoverable

/-- Sequential ensures whose removals keep to their allocation, and no process lost before its
record. -/
def Retries (cfg : Config) (s : State) (e : Event) : Prop :=
  SequentialEnsures s e ∧ KeepsHeld s e ∧ RemovesOwn cfg s e

lemma Reachable.recoverable (h : Reachable cfg (Retries cfg) s) : Claimed s ∧ Recoverable s := by
  have hg : ∀ s e, Retries cfg s e → SeesUnsettled s e ∧ KeepsHeld s e :=
    fun s e hg => ⟨hg.1.seesUnsettled, hg.2.1⟩
  refine ⟨h.claimed hg, ?_⟩
  obtain ⟨s₀, h0, hr⟩ := h
  refine hr.invariant_of (I := fun s => Serial s ∧ Claimed s) (fun t ht => ?_)
    (recoverable_initial h0) ?_
  · have ht : Reachable cfg (Retries cfg) t := ⟨s₀, h0, ht⟩
    exact ⟨ht.serial fun s e hge => (hg s e hge).1, ht.claimed hg⟩
  · exact fun _ _ _ hI _ hr hge hst =>
      hr.step hI.2 hI.1 hge.1 hge.2.1 hge.2.2 (step_happens hst)

/-- **Retries start a unit once and lose no process**: at most one process runs for a unit, and
each is named by its pid file from the moment that is written. -/
theorem ensure_recoverable (h : Reachable cfg (Retries cfg) s) :
    (∀ unit pid pid', s.world.processes pid = some (.sidecar unit) →
      s.world.processes pid' = some (.sidecar unit) → pid = pid') ∧
    ∀ unit pid, s.world.processes pid = some (.sidecar unit) →
      s.Discoverable unit pid ∨ s.Unwritten unit pid := by
  obtain ⟨hc, hr⟩ := h.recoverable
  exact ⟨hc.unique, fun unit pid hp => (hr.pidFile pid unit hp).imp .inl id⟩

/-- An ensure cut off by a crash, and its retry with the pid file written. -/
theorem ensure_recoverable_retried : ∃ s : State, s.calls 0 = some ⟨ensureOf "a" 1, .recording 7⟩ ∧
    (s.Discoverable ⟨"a", 1⟩ 7 ∨ s.Unwritten ⟨"a", 1⟩ 7) := by
  have call : ∀ {s : State}, s.calls = (fun _ => none) →
      Retries sampleConfig s (.call 0 (ensureOf "a" 1)) := by
    refine fun h => ⟨?_, trivial, trivial⟩
    rintro c ⟨request, phase, hc, -⟩
    simp [h] at hc
  have quiet : ∀ {s : State} {c : ℕ} {r : Reply}, r.isFailure = false →
      (r = .done → ∃ request pid, s.calls c = some ⟨request, .writingPid pid⟩) →
      Retries sampleConfig s (.reply c r) := by
    refine fun {s c r} h hd => ⟨trivial, fun h' => by simp [h] at h', ?_⟩
    cases r with
    | done =>
      obtain ⟨_, _, hw⟩ := hd rfl
      exact fun request purpose target rest hc => by simp [hw] at hc
    | _ => trivial
  have crash : ∀ {s : State}, s.world.processes = (fun _ => none) →
      Retries sampleConfig s .restart :=
    fun h => ⟨trivial, fun unit pid _ => by simp [h], trivial⟩
  have hr : Reach (step sampleConfig) (Retries sampleConfig) idle _ :=
    .head (e := .call 0 (ensureOf "a" 1)) (call rfl) rfl
      (.head (e := .reply 0 (.stored "t0")) (quiet rfl nofun) rfl
        (.head (e := .restart) (crash rfl) rfl
          (.head (e := .call 0 (ensureOf "a" 1)) (call rfl) rfl
            (.head (e := .reply 0 (.stored "t1")) (quiet rfl nofun) rfl
              (.head (e := .reply 0 (.spawned 7)) (quiet rfl nofun) rfl
                (.head (e := .reply 0 .done) (quiet rfl fun _ => ⟨_, _, rfl⟩) rfl .refl))))))
  exact ⟨_, rfl, (ensure_recoverable ⟨idle, initial_idle, hr⟩).2 ⟨"a", 1⟩ 7 rfl⟩

/-- The unit runs and its pid file is written, recording it fails, and the ensure is retried. -/
def retriedEnsure : List Event :=
  [.call 0 (ensureOf "a" 1), .reply 0 (.stored "t0"), .reply 0 (.spawned 7), .reply 0 .done,
    .reply 0 (.storeFailed "t1" false outage), .clear 0,
    .call 1 (ensureOf "a" 1), .reply 1 (.stored "t2"), .reply 1 (.spawned 8), .reply 1 .done,
    .reply 1 (.stored "t3"), .reply 1 (.listed ["gen-1"]), .reply 1 .done, .clear 1]

/-- **A unit that could not be recorded is started again**, and its first process is lost. -/
theorem ensure_not_recoverable : ∃ s, run (step sampleConfig) idle retriedEnsure = some s ∧
    s.world.processes 7 = some (.sidecar ⟨"a", 1⟩) ∧
    s.world.processes 8 = some (.sidecar ⟨"a", 1⟩) ∧
    ¬ s.Discoverable ⟨"a", 1⟩ 7 ∧ ¬ s.Unwritten ⟨"a", 1⟩ 7 := by
  refine ⟨_, rfl, rfl, rfl, ?_, ?_⟩
  · rintro (h | ⟨r, ref, hr, he, hp⟩)
    · revert h; decide
    · obtain rfl := Option.some.inj hr
      obtain rfl := Option.some.inj he
      revert hp; decide
  · rintro ⟨c, request, phase, hc, -, hp, -⟩
    rcases c with _ | _ | c
    · obtain rfl := (Call.mk.inj (Option.some.inj hc)).2
      simp [Phase.held] at hp
    · obtain rfl := (Call.mk.inj (Option.some.inj hc)).2
      revert hp; decide
    · change none = some (Call.mk request phase) at hc
      simp at hc

end Workbench.Provisioner
