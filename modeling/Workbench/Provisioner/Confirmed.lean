import Workbench.Provisioner.Recovery

/-!
When a confirmed destroy has left no process of its allocation behind.

A destroy stops the unit its reference names, or the units it finds by their pid files. What is
none of these survives it: a unit that an ensure is still starting, one whose pid file is not
written or is overwritten, one beside the recorded one, and the unit of generation 0, which
`generationOf` does not recognise.
-/

namespace Workbench.Provisioner

open Workbench.Lib Workbench.Lib.Transition

/-- A process of an allocation, of a generation a destroy is to end. -/
def World.Runs (w : World) (destroy : DestroySidecarRequest) (unit : UnitId) (pid : ℕ) : Prop :=
  w.processes pid = some (.sidecar unit) ∧ unit.allocationId = destroy.allocationId ∧
    unit.generation ≤ destroy.generation.toNat

/-- A reference names a pid, if it names anything. -/
def NamesPid (ref : String) (pid : ℕ) : Prop :=
  ∀ target, parseExternalRef ref = some target → target.pid = pid

/-- The state store lets a destroy through. -/
def Admits (records : Records) (destroy : DestroySidecarRequest) : Prop :=
  ∀ r, records.get destroy.allocationId = some r →
    r.sidecarId = destroy.sidecarId ∧ r.generation ≤ destroy.generation.toNat

/-- A destroy that is let through finds every process it is to end: no start of its allocation
is under way that will spawn one; its reference, when it has one, names the process; its listing
shows the directory of each unit that runs; and the pid file of each of these names the process. -/
def FindsAll (s : State) : Event → Prop
  | .reply c r =>
    match s.calls c, r with
    | some ⟨.destroy destroy, .observing⟩, .stored _ => Admits s.world.records destroy →
      (∀ c' request args, s.calls c' = some ⟨request, .making args⟩ →
        request.allocationId = destroy.allocationId →
          destroy.generation.toNat < request.generation) ∧
      ∀ ref, resolvedRef s.world.records destroy = some ref → ∀ unit pid,
        s.world.Runs destroy unit pid → NamesPid ref pid
    | some ⟨.destroy destroy, .listing _⟩, .listed _ => ∀ unit pid,
      s.world.Runs destroy unit pid →
        0 < unit.generation ∧ (s.world.units.get (unitDirKey unit)).isSome
    | some ⟨.destroy destroy, .reading _ (entry :: _) _⟩, .done => ∀ unit pid,
      s.world.Runs destroy unit pid → entry = unitDirName unit.generation →
        s.world.readPidFile (unitDirKey unit) = some pid
    | _, _ => True
  | _ => True

namespace Phase

/-- A destroy that was let through and has not been rejected since. -/
def isClosing : Phase → Bool
  | .listing .destroy | .reading .destroy _ _ | .stopping .destroy _ _
  | .terminating (.stop .destroy _) _ | .removing .destroy _ _ | .removingParent .destroy _ _
  | .returned .confirmed => true
  | _ => false

/-- Why the units are stopped that a call has found or is about to look for. -/
def purpose : Phase → Option Purpose
  | .listing purpose | .reading purpose _ _ | .stopping purpose _ _
  | .terminating (.stop purpose _) _ | .removing purpose _ _ | .removingParent purpose _ _ =>
    some purpose
  | _ => none

lemma eq_destroy_of_isClosing {phase : Phase} {purpose : Purpose} (hp : phase.isClosing)
    (h : phase.purpose = some purpose) : purpose = .destroy := by
  cases phase with
  | listing purpose' | reading purpose' | stopping purpose' | removing purpose'
  | removingParent purpose' =>
    obtain rfl : purpose' = purpose := Option.some.inj h
    cases purpose' with
    | destroy => rfl
    | _ => exact nomatch hp
  | terminating after target =>
    cases after with
    | abandon failure => exact nomatch h
    | stop purpose' rest =>
      obtain rfl : purpose' = purpose := Option.some.inj h
      cases purpose' with
      | destroy => rfl
      | _ => exact nomatch hp
  | _ => exact nomatch h

/-- A destroy is still to stop the process of a unit. -/
def Covers (unit : UnitId) (pid : ℕ) : Phase → Prop
  | .listing _ => True
  | .reading _ entries refs => (0 < unit.generation ∧ unitDirName unit.generation ∈ entries) ∨
      ∃ ref ∈ refs, NamesPid ref pid
  | .stopping _ ref rest => ∃ r ∈ ref :: rest, NamesPid r pid
  | .terminating after target => target.pid = pid ∨ ∃ r ∈ after.rest, NamesPid r pid
  | .removing _ _ rest | .removingParent _ _ rest => ∃ r ∈ rest, NamesPid r pid
  | _ => False

end Phase

section

variable {request : Request} {rest refs : List String} {unit : UnitId} {pid : ℕ}
  {target : UnitRef}

lemma closing_continueStops : (continueStops request .destroy rest).isClosing := by
  cases rest <;> rfl

lemma covers_continueStops (h : ∃ r ∈ rest, NamesPid r pid) :
    (continueStops request .destroy rest).Covers unit pid := by
  cases rest with
  | nil => simp at h
  | cons ref rest => exact h

/-- After `terminate` a destroy goes on unless it is rejected. -/
lemma afterTerminate_destroy :
    (∃ error, afterTerminate request (.stop .destroy rest) target = .returned (.rejected error)) ∨
      afterTerminate request (.stop .destroy rest) target = .removing .destroy target rest := by
  simp only [afterTerminate]
  split
  · exact .inr rfl
  · exact .inl ⟨_, rfl⟩

end

/-- A destroy that closes its allocation: the record keeps new starts out, none is under way,
and every process left is one it is still to stop. -/
structure Closing (s : State) (destroy : DestroySidecarRequest) (phase : Phase) : Prop where
  record : ∃ r, s.world.records.get destroy.allocationId = some r ∧
    (destroy.generation.toNat < r.generation ∨
      (destroy.generation.toNat = r.generation ∧ r.desiredState = .destroyed))
  making : ∀ c request args, s.calls c = some ⟨request, .making args⟩ →
    request.allocationId = destroy.allocationId → destroy.generation.toNat < request.generation
  covers : ∀ unit pid, s.world.Runs destroy unit pid → phase.Covers unit pid

/-- A destroy that does something closes its allocation. -/
structure Closes (s : State) : Prop where
  phases : ∀ c destroy phase, s.calls c = some ⟨.destroy destroy, phase⟩ →
    phase.isInert ∨ phase.isClosing
  closing : ∀ c destroy phase, s.calls c = some ⟨.destroy destroy, phase⟩ →
    phase.isClosing → Closing s destroy phase

lemma closes_initial {s : State} (h : Initial s) : Closes s where
  phases c destroy phase hc := by simp [h.calls] at hc
  closing c destroy phase hc := by simp [h.calls] at hc

/-- What `observeEnsure` lets through is newer than the record, or the ensured one. -/
lemma newer_of_observeEnsure {now : String} {m : Records} {args : ObserveArgs}
    {record r : AllocationRecord} (h : (observeEnsure now m args).1 = .observed record)
    (hr : m.get args.allocationId = some r) :
    r.generation < args.generation ∨
      (r.generation = args.generation ∧ r.desiredState = .ensured) := by
  have hs := observeEnsure_spec now m args
  generalize observeEnsure now m args = d at h hs
  cases hs with
  | refused => simp at h
  | present r' get sidecar generation state =>
    obtain rfl : r = r' := Option.some.inj (hr.symm.trans get)
    exact .inr ⟨generation, state⟩
  | fresh older => exact .inl (older r hr).2

/-- What `observeDestroy` lets through is no older than the record, which is destroyed then. -/
lemma get_apply_observeDestroy {now : String} {m : Records} {args : ObserveArgs}
    {record : AllocationRecord} (h : (observeDestroy now m args).1 = .observed record) :
    ((StoreOp.observeDestroy args).apply now m).get args.allocationId = some record ∧
      record.generation = args.generation ∧ record.desiredState = .destroyed := by
  have hs := observeDestroy_spec now m args
  simp only [StoreOp.apply, StoreOp.decide, Prod.map_snd, id_eq]
  generalize observeDestroy now m args = d at h hs
  cases hs with
  | refused => simp at h
  | present r get sidecar generation state =>
    obtain rfl : r = record := by simpa using h
    exact ⟨get, generation, state⟩
  | fresh externalRef missing older =>
    obtain rfl : _ = record := by simpa using h
    exact ⟨by simp [Records.get_put, destroyedRecord], rfl, rfl⟩

/-- It lets through what it admits. -/
lemma admits_of_observeDestroy {now : String} {m : Records} {destroy : DestroySidecarRequest}
    {record : AllocationRecord}
    (h : (observeDestroy now m (Request.destroy destroy).observeArgs).1 = .observed record) :
    Admits m destroy := by
  intro r hr
  have hs := observeDestroy_spec now m (Request.destroy destroy).observeArgs
  generalize observeDestroy now m (Request.destroy destroy).observeArgs = d at h hs
  cases hs with
  | refused => simp at h
  | present r' get sidecar generation state =>
    obtain rfl : r = r' := Option.some.inj (hr.symm.trans get)
    exact ⟨sidecar, generation.le⟩
  | fresh externalRef missing older => exact ⟨(older r hr).1, (older r hr).2.1⟩

lemma observed_of_admits (now : String) {m : Records} {destroy : DestroySidecarRequest}
    (h : Admits m destroy) : ∃ record,
      (observeDestroy now m (Request.destroy destroy).observeArgs).1 = .observed record := by
  unfold observeDestroy
  cases hr : m.get (Request.destroy destroy).observeArgs.allocationId with
  | none => exact ⟨_, rfl⟩
  | some r =>
    obtain ⟨hs, hg⟩ := h r hr
    dsimp only
    split_ifs with h1 h2
    exacts [absurd hs h1, absurd hg (not_le.mpr h2), ⟨_, rfl⟩, ⟨_, rfl⟩]

variable {cfg : Config} {s t : State} {e : Event} {c : ℕ} {destroy : DestroySidecarRequest}
  {phase next : Phase} {r : Reply} {changes : List Change}

lemma Closing.step_record (hc : Closing s destroy phase) (h : Happens cfg s e t)
    (he : e ≠ .restart) : ∃ r, t.world.records.get destroy.allocationId = some r ∧
      (destroy.generation.toNat < r.generation ∨
        (destroy.generation.toNat = r.generation ∧ r.desiredState = .destroyed)) := by
  obtain ⟨r, hr, hg⟩ := hc.record
  obtain ⟨r', hr', hf⟩ := h.evolves he _ _ hr
  have := hf.generation
  refine ⟨r', hr', ?_⟩
  rcases hg with hg | ⟨hg, hd⟩
  · exact .inl (by omega)
  · by_cases hgen : r'.generation = r.generation
    · exact .inr ⟨by omega, hf.destroyed hgen hd⟩
    · exact .inl (by omega)

/-- No start of a closed generation begins. -/
lemma Closing.step_making (hc : Closing s destroy phase) (h : Happens cfg s e t) :
    ∀ c request args, t.calls c = some ⟨request, .making args⟩ →
      request.allocationId = destroy.allocationId →
        destroy.generation.toNat < request.generation := by
  intro c request args hcall ha
  rcases h.call_of hcall with hcall' | hi | ⟨phase', r, changes, rfl, hcall', hm, -⟩
  · exact hc.making c request args hcall' ha
  · simp [Phase.isInert] at hi
  · obtain ⟨ensure, now, record, rfl, rfl, rfl, ho, -⟩ := hm.making_next
    obtain ⟨r, hr, hg⟩ := hc.record
    have hnew := newer_of_observeEnsure (r := r) ho (by rw [← ha] at hr; exact hr)
    have hgen : (Request.ensure ensure).observeArgs.generation =
      (Request.ensure ensure).generation := rfl
    rcases hnew with hlt | ⟨heq, hst⟩
    · rcases hg with hg | ⟨hg, -⟩ <;> omega
    · rcases hg with hg | ⟨hg, hd⟩
      · omega
      · simp [hst] at hd

/-- No process of a closed generation begins. -/
lemma Closing.runs_step (hc : Closing s destroy phase) (h : Happens cfg s e t) {unit : UnitId}
    {pid : ℕ} (hr : t.world.Runs destroy unit pid) : s.world.Runs destroy unit pid := by
  obtain ⟨hp, ha, hg⟩ := hr
  rcases h.sidecar hp with hp' | ⟨-, -, c, request, args, -, hcall, -, rfl⟩
  · exact ⟨hp', ha, hg⟩
  · have := hc.making c request args hcall ha
    simp at hg
    omega

/-- **What one reply does to a destroy that closes**: it is rejected, or throws, or it closes
what is left and finds the processes that still run. -/
lemma closing_moves (hm : Moves cfg s.world (.destroy destroy) phase r next changes)
    (hcall : s.calls c = some ⟨.destroy destroy, phase⟩) (hp : phase.isClosing)
    (hg : FindsAll s (.reply c r))
    (hcov : ∀ unit pid, s.world.Runs destroy unit pid → phase.Covers unit pid) :
    (∃ result, next = .returned result ∧ result ≠ .confirmed) ∨
    (next.isClosing ∧ ∀ unit pid, s.world.Runs destroy unit pid →
      (s.world.applyAll cfg.allocationsDir changes).Runs destroy unit pid →
        next.Covers unit pid) := by
  simp only [FindsAll, hcall] at hg
  have dead : ∀ {w : World} {unit target pid}, w.processes target = none →
      w.Runs destroy unit pid → target ≠ pid := by
    rintro w unit target pid hd hr rfl
    simp [World.Runs, hd] at hr
  -- after a target has ended, the rest covers what still runs
  have after : ∀ {rest target}, (∀ unit pid, s.world.Runs destroy unit pid →
        target.pid = pid ∨ ∃ r ∈ rest, NamesPid r pid) → ∀ {w' : World},
      w'.processes target.pid = none → (next = afterTerminate (.destroy destroy)
        (.stop .destroy rest) target) → (∃ result, next = .returned result ∧ result ≠ .confirmed) ∨
      (next.isClosing ∧ ∀ unit pid, s.world.Runs destroy unit pid → w'.Runs destroy unit pid →
        next.Covers unit pid) := by
    rintro rest target hcov w' hd rfl
    rcases @afterTerminate_destroy (.destroy destroy) rest target with ⟨error, h⟩ | h <;> rw [h]
    · exact .inl ⟨_, rfl, by simp⟩
    · exact .inr ⟨rfl, fun unit pid hr hr' => (hcov unit pid hr).resolve_left (dead hd hr')⟩
  cases hm with
  | @listed purpose names all =>
    obtain rfl := Phase.eq_destroy_of_isClosing hp rfl
    right
    have mem : ∀ unit pid, s.world.Runs destroy unit pid →
        0 < unit.generation ∧ unitDirName unit.generation ∈ names := by
      intro unit pid hr
      obtain ⟨hpos, hsome⟩ := hg unit pid hr
      refine ⟨hpos, all.mem_iff.mpr (World.mem_entriesOf.2 ?_)⟩
      obtain ⟨text, ht⟩ := Option.isSome_iff_exists.mp hsome
      exact ⟨text, by rw [← ht, unitDirKey, hr.2.1]; rfl⟩
    cases names with
    | nil => exact ⟨rfl, fun unit pid hr _ => by simpa using (mem unit pid hr).2⟩
    | cons entry entries => exact ⟨rfl, fun unit pid hr _ => .inl (mem unit pid hr)⟩
  | notListed => exact .inl ⟨_, rfl, by simp⟩
  | @read purpose entry entries refs =>
    obtain rfl := Phase.eq_destroy_of_isClosing hp rfl
    right
    set refs' := readEntry s.world (.destroy destroy) refs entry with hrefs'
    have mem : ∀ unit pid, s.world.Runs destroy unit pid →
        (0 < unit.generation ∧ unitDirName unit.generation ∈ entries) ∨
          ∃ ref ∈ refs', NamesPid ref pid := by
      intro unit pid hr
      rcases hcov unit pid hr with ⟨hpos, hmem⟩ | ⟨ref, href, hn⟩
      · rcases List.mem_cons.mp hmem with rfl | hmem
        · have hfile := hg unit pid hr rfl
          refine .inr ⟨externalRefOf destroy.allocationId unit.generation pid, ?_, ?_⟩
          · have hkey : unitDirKey unit = ((Request.destroy destroy).allocationId,
                unitDirName unit.generation) := by rw [unitDirKey, hr.2.1]; rfl
            have hgen : generationOf (unitDirName unit.generation) = some unit.generation := by
              rw [generationOf_unitDirName, if_pos hpos]
            exact readEntry_found hgen (hkey ▸ hfile) (by simp [World.isAlive, hr.1])
          · intro target ht
            rw [eq_of_parseExternalRef ht]
        · exact .inl ⟨hpos, hmem⟩
      · exact .inr ⟨ref, subset_readEntry href, hn⟩
    cases entries with
    | nil =>
      refine ⟨closing_continueStops, fun unit pid hr _ => covers_continueStops ?_⟩
      obtain ⟨ref, href, hn⟩ := (mem unit pid hr).resolve_left (by simp)
      exact ⟨ref, List.mem_eraseDups.mpr href, hn⟩
    | cons entry' entries => exact ⟨rfl, fun unit pid hr _ => mem unit pid hr⟩
  | notRead => exact .inl ⟨_, rfl, by simp⟩
  | @unparsed purpose ref rest reply parse ended =>
    obtain rfl := Phase.eq_destroy_of_isClosing hp rfl
    exact .inl ⟨_, rfl, by simp⟩
  | @stopped purpose ref rest target parse =>
    obtain rfl := Phase.eq_destroy_of_isClosing hp rfl
    have hcov' : ∀ unit pid, s.world.Runs destroy unit pid →
        target.pid = pid ∨ ∃ r ∈ rest, NamesPid r pid := by
      intro unit pid hr
      obtain ⟨r, hmem, hn⟩ := hcov unit pid hr
      rcases List.mem_cons.mp hmem with rfl | hmem
      · exact .inl (hn target parse)
      · exact .inr ⟨r, hmem, hn⟩
    rcases terminateStart_cases (w := s.world) with ⟨-, h⟩ | ⟨hd, h⟩
    · rw [h]
      exact .inr ⟨rfl, fun unit pid hr _ => hcov' unit pid hr⟩
    · have ha := after hcov' hd (by rw [h])
      rw [h] at ha ⊢
      exact ha
  | @notStopped purpose ref rest target failure parse =>
    obtain rfl := Phase.eq_destroy_of_isClosing hp rfl
    exact .inl ⟨_, rfl, by simp⟩
  | @exited after' target expired d =>
    cases after' with
    | abandon failure => simp [Phase.isClosing] at hp
    | stop purpose rest =>
      obtain rfl := Phase.eq_destroy_of_isClosing hp rfl
      exact after hcov d rfl
  | @killed after' target alive =>
    cases after' with
    | abandon failure => simp [Phase.isClosing] at hp
    | stop purpose rest =>
      obtain rfl := Phase.eq_destroy_of_isClosing hp rfl
      exact after hcov (by simp) rfl
  | waited => exact .inr ⟨hp, fun unit pid hr _ => hcov unit pid hr⟩
  | @notTerminated after' target failure =>
    cases after' with
    | abandon failure => simp [Phase.isClosing] at hp
    | stop purpose rest =>
      obtain rfl := Phase.eq_destroy_of_isClosing hp rfl
      exact .inl ⟨_, rfl, by simp⟩
  | @removed purpose target rest =>
    obtain rfl := Phase.eq_destroy_of_isClosing hp rfl
    exact .inr ⟨rfl, fun unit pid hr _ => hcov unit pid hr⟩
  | @parentRemoved purpose target rest =>
    obtain rfl := Phase.eq_destroy_of_isClosing hp rfl
    exact .inr ⟨closing_continueStops, fun unit pid hr _ =>
      covers_continueStops (hcov unit pid hr)⟩
  | @notRemoved purpose target rest | @parentNotRemoved purpose target rest =>
    obtain rfl := Phase.eq_destroy_of_isClosing hp rfl
    exact .inl ⟨_, rfl, by simp⟩
  | storeFailed pending => cases phase <;> simp_all [pendingOp, Phase.isClosing]
  | _ => simp [Phase.isClosing] at hp

/-- A destroy that is let through closes its allocation. -/
lemma closing_observed {now : String} {record : AllocationRecord}
    (h : Happens cfg s (.reply c (.stored now)) t)
    (hcall : s.calls c = some ⟨.destroy destroy, .observing⟩)
    (ho : (observeDestroy now s.world.records (Request.destroy destroy).observeArgs).1 =
      .observed record)
    (hw : t.world.records = (StoreOp.observeDestroy (Request.destroy destroy).observeArgs).apply now
      s.world.records)
    (hg : FindsAll s (.reply c (.stored now)))
    (hres : (resolvedRef s.world.records destroy = none ∧
        next = enterListing (.destroy destroy) .destroy ∧ next.isClosing) ∨
      ∃ ref, resolvedRef s.world.records destroy = some ref ∧ next = .stopping .destroy ref []) :
    Closing t destroy next := by
  simp only [FindsAll, hcall] at hg
  obtain ⟨hmaking, hrefs⟩ := hg (admits_of_observeDestroy ho)
  obtain ⟨hget, hgen, hst⟩ := get_apply_observeDestroy ho
  have hcalls : ∀ c' request args, t.calls c' = some ⟨request, .making args⟩ →
      s.calls c' = some ⟨request, .making args⟩ := by
    intro c' request args hc
    rcases h.call_of hc with hc' | hi | ⟨phase', r, changes, he, hc', hm, -⟩
    · exact hc'
    · simp [Phase.isInert] at hi
    · obtain ⟨rfl, rfl⟩ := Event.reply.inj he
      obtain ⟨ensure, -, -, rfl, -⟩ := hm.making_next
      simp [hcall] at hc'
  refine ⟨⟨record, by rw [hw]; exact hget, .inr ⟨hgen.symm, hst⟩⟩,
    fun c' request args hc => hmaking c' request args (hcalls c' request args hc), ?_⟩
  intro unit pid hr
  have hr' : s.world.Runs destroy unit pid := by
    refine ⟨?_, hr.2⟩
    rcases h.sidecar hr.1 with hp | ⟨-, -, c', request, args, he, -⟩
    · exact hp
    · simp at he
  rcases hres with ⟨-, rfl, hn⟩ | ⟨ref, href, rfl⟩
  · unfold enterListing at hn ⊢
    split
    · trivial
    · rename_i hm
      simp [hm, Phase.isClosing] at hn
  · exact ⟨ref, by simp, hrefs ref href unit pid hr'⟩

lemma inert_of_ne_confirmed {result : Result} (h : result ≠ .confirmed) :
    ¬ (Phase.returned result).isClosing := by
  cases result <;> simp_all [Phase.isClosing]

/-- **One step keeps every destroy right.** -/
theorem Closes.step (hc : Closes s) (hg : FindsAll s e) (h : Happens cfg s e t) : Closes t := by
  have moved : ∀ c destroy next, t.calls c = some ⟨.destroy destroy, next⟩ →
      (next.isInert ∨ next.isClosing) ∧ (next.isClosing → Closing t destroy next) := by
    intro c destroy next hcall
    have he := h.ne_restart hcall
    rcases h.call_cases hcall with hcall' | ⟨hi, hne⟩ | ⟨phase, r, changes, rfl, hcall', hm, hw⟩
    · refine ⟨hc.phases c destroy next hcall', fun hp => ?_⟩
      have hcl := hc.closing c destroy next hcall' hp
      exact ⟨hcl.step_record h he, hcl.step_making h,
        fun unit pid hr => hcl.covers unit pid (hcl.runs_step h hr)⟩
    · refine ⟨.inl hi, fun hp => ?_⟩
      cases next with
      | returned result => exact absurd hp (inert_of_ne_confirmed (by simpa using hne))
      | _ => simp [Phase.isClosing, Phase.isInert] at hp hi
    · rcases hc.phases c destroy phase hcall' with hi | hp
      · cases phase with
        | chained on => exact absurd rfl (hm.ne_chained on).1
        | returned result =>
          have := hm.isExecuting
          simp [Phase.isExecuting] at this
        | observing =>
          have hm' := hm
          cases hm with
          | observedEnsure ensure is => simp at is
          | storeFailed => exact ⟨.inl rfl, fun hp => by simp [Phase.isClosing] at hp⟩
          | @observedDestroy now destroy' is =>
            obtain rfl : destroy = destroy' := by simpa using is
            obtain ⟨op, hop, hrec⟩ := hm'.stored
            obtain rfl := Option.some.inj hop
            rw [← hw] at hrec
            rcases afterObserveDestroy_cases now s.world.records destroy with
              ⟨ending, ha, hne⟩ | ⟨record, ref, ho, hres, ha⟩ | ⟨record, ho, hres, ha⟩ <;> rw [ha]
            · exact ⟨.inl rfl, fun hp => absurd hp (inert_of_ne_confirmed hne)⟩
            · exact ⟨.inr rfl, fun _ =>
                closing_observed h hcall' ho hrec hg (.inr ⟨ref, hres, rfl⟩)⟩
            · refine ⟨?_, fun hp =>
                closing_observed h hcall' ho hrec hg (.inl ⟨hres, rfl, hp⟩)⟩
              unfold enterListing
              split
              exacts [.inr rfl, .inl rfl]
        | _ => simp [Phase.isInert] at hi
      · have hcl := hc.closing c destroy phase hcall' hp
        rcases closing_moves hm hcall' hp hg hcl.covers with ⟨result, rfl, hne⟩ | ⟨hn, hcov⟩
        · exact ⟨.inl rfl, fun hp => absurd hp (inert_of_ne_confirmed hne)⟩
        · refine ⟨.inr hn, fun _ => ⟨hcl.step_record h he, hcl.step_making h, ?_⟩⟩
          intro unit pid hr
          exact hcov unit pid (hcl.runs_step h hr) (hw ▸ hr)
  exact ⟨fun c destroy phase hcall => (moved c destroy phase hcall).1,
    fun c destroy phase hcall => (moved c destroy phase hcall).2⟩

lemma Reachable.closes (h : Reachable cfg FindsAll s) : Closes s := by
  obtain ⟨s₀, h0, hr⟩ := h
  exact hr.invariant (closes_initial h0) fun _ _ _ hc hg hst => hc.step hg (step_happens hst)

/-- The unit recorded is destroyed, after `retriedEnsure` has left two processes. -/
def destroyedRetry : List Event :=
  retriedEnsure ++ [.call 2 (destroyOf "a" 1 none), .reply 2 (.stored "t4"), .reply 2 .done,
    .exit 8, .reply 2 (.polled false), .reply 2 .done, .reply 2 .done]

end Workbench.Provisioner
