import Workbench.Provisioner.Confirmed

/-!
What a destroy does to the units of other allocations.

A reference says which allocation its unit is of, and which pid it has. A destroy believes both:
the pid is signalled whoever it is now, and the directory of the named unit is removed under the
named allocation. The request's own allocation is never compared with either.
-/

namespace Workbench.Provisioner

open Workbench.Lib Workbench.Lib.Transition

/-- A change stays with the units of an allocation: it signals none but their processes and
removes no unit directory but theirs. -/
def KeepsTo (cfg : Config) (w : World) (a : String) : Change → Prop
  | .signal _ pid _ => ∃ generation, w.processes pid = some (.sidecar ⟨a, generation⟩)
  | .removeUnitDir unit => ∀ dir, takesAway cfg.allocationsDir unit dir →
      (w.units.get dir).isSome → dir.1 = a
  | _ => True

/-- The steps of one call. -/
def OwnSteps (c : ℕ) (_ : State) (e : Event) : Prop := ∃ r, e = .reply c r

/-- Whatever a call does from here on stays with the units of an allocation. -/
def Isolates (cfg : Config) (s : State) (c : ℕ) (a : String) : Prop :=
  ∀ t, Reach (step cfg) (OwnSteps c) s t → ∀ r, ∀ change ∈ actionsOf cfg t (.reply c r),
    KeepsTo cfg t.world a change

/-- The process of a target, if there is one, and the unit directories that go with it are those
of an allocation. -/
structure TargetKeepsTo (cfg : Config) (w : World) (a : String) (target : UnitRef) : Prop where
  process : w.isAlive target.pid →
    ∃ generation, w.processes target.pid = some (.sidecar ⟨a, generation⟩)
  dirs : matchesAllocationIdPattern target.unit.allocationId → ∀ dir,
    takesAway cfg.allocationsDir target.unit dir → (w.units.get dir).isSome → dir.1 = a

def RefKeepsTo (cfg : Config) (w : World) (a : String) (ref : String) : Prop :=
  ∀ target, parseExternalRef ref = some target → TargetKeepsTo cfg w a target

/-- What a destroy finds in the directory of its allocation stays with it. -/
def ListingKeepsTo (cfg : Config) (w : World) (a : String) : Prop :=
  matchesAllocationIdPattern a → ∀ entry generation pid, generationOf entry = some generation →
    w.readPidFile (a, entry) = some pid → w.isAlive pid →
      RefKeepsTo cfg w a (externalRefOf a generation pid)

/-- What a destroy is to stop, by its reference or by listing, stays with its allocation. -/
def Isolated (cfg : Config) (w : World) (destroy : DestroySidecarRequest) : Prop :=
  match resolvedRef w.records destroy with
  | some ref => RefKeepsTo cfg w destroy.allocationId ref
  | none => ListingKeepsTo cfg w destroy.allocationId

/-! ### A world in which less is left -/

/-- What processes and unit directories there are were there before. -/
structure World.Shrinks (w w' : World) : Prop where
  processes : ∀ pid process, w'.processes pid = some process → w.processes pid = some process
  units : ∀ dir text, w'.units.get dir = some text → w.units.get dir = some text

variable {cfg : Config} {w w' : World} {a ref : String} {target : UnitRef}

lemma TargetKeepsTo.mono (h : TargetKeepsTo cfg w a target) (hs : w.Shrinks w') :
    TargetKeepsTo cfg w' a target where
  process ha := by
    obtain ⟨process, hp⟩ := Option.isSome_iff_exists.mp ha
    have hp' := hs.processes _ _ hp
    obtain ⟨generation, hg⟩ := h.process (by simp [World.isAlive, hp'])
    exact ⟨generation, by rw [hp, ← hp', hg]⟩
  dirs hm dir ht hsome := by
    obtain ⟨text, hd⟩ := Option.isSome_iff_exists.mp hsome
    exact h.dirs hm dir ht (by simp [hs.units _ _ hd])

lemma RefKeepsTo.mono (h : RefKeepsTo cfg w a ref) (hs : w.Shrinks w') :
    RefKeepsTo cfg w' a ref :=
  fun target ht => (h target ht).mono hs

lemma ListingKeepsTo.mono (h : ListingKeepsTo cfg w a) (hs : w.Shrinks w') :
    ListingKeepsTo cfg w' a := by
  intro hm entry generation pid hg hp ha
  obtain ⟨process, hproc⟩ := Option.isSome_iff_exists.mp ha
  refine (h hm entry generation pid hg ?_ ?_).mono hs
  · cases ht : w'.units.get (a, entry) with
    | none => simp [World.readPidFile, ht] at hp
    | some text => simpa [World.readPidFile, ht, hs.units _ _ ht] using hp
  · simp [World.isAlive, hs.processes _ _ hproc]

/-- A destroy ends processes and removes directories, and brings none about. -/
lemma shrinks_of_moves {request : Request} {phase next : Phase} {r : Reply}
    {changes : List Change} (hm : Moves cfg w request phase r next changes)
    (hp : phase = .observing ∨ phase.isClosing) :
    w.Shrinks (w.applyAll cfg.allocationsDir changes) where
  processes pid process h := by
    rcases hm.processes with h' | ⟨args, pid', rfl, -⟩ | ⟨after, target, -, -, -, h'⟩
    · rwa [h'] at h
    · simp [Phase.isClosing] at hp
    · rw [h'] at h
      by_cases hpid : pid = target.pid
      · simp [hpid] at h
      · rwa [Function.update_of_ne hpid] at h
  units dir text h := by
    rcases hm.units with h' | ⟨args, rfl, -⟩ | ⟨pid, rfl, -⟩ | ⟨purpose, target, rest, -, -, -, h'⟩
    · rwa [h'] at h
    · simp [Phase.isClosing] at hp
    · simp [Phase.isClosing] at hp
    · rw [h'] at h
      split at h
      exacts [by simp at h, h]

/-! ### Nothing else is touched when all to be stopped is the allocation's -/

/-- What a destroy has still to stop stays with its allocation. -/
def Phase.KeepsTo (cfg : Config) (w : World) (destroy : DestroySidecarRequest) : Phase → Prop
  | .observing => Isolated cfg w destroy
  | .listing .destroy => matchesAllocationIdPattern destroy.allocationId ∧
      ListingKeepsTo cfg w destroy.allocationId
  | .reading .destroy _ refs => (matchesAllocationIdPattern destroy.allocationId ∧
      ListingKeepsTo cfg w destroy.allocationId) ∧
      ∀ ref ∈ refs, RefKeepsTo cfg w destroy.allocationId ref
  | .stopping .destroy ref rest => ∀ r ∈ ref :: rest, RefKeepsTo cfg w destroy.allocationId r
  | .terminating (.stop .destroy rest) target => TargetKeepsTo cfg w destroy.allocationId target ∧
      ∀ r ∈ rest, RefKeepsTo cfg w destroy.allocationId r
  | .removing .destroy target rest => (∀ dir, takesAway cfg.allocationsDir target.unit dir →
      (w.units.get dir).isSome → dir.1 = destroy.allocationId) ∧
      ∀ r ∈ rest, RefKeepsTo cfg w destroy.allocationId r
  | .removingParent .destroy _ rest => ∀ r ∈ rest, RefKeepsTo cfg w destroy.allocationId r
  | .returned _ => True
  | _ => False

variable {s t : State} {c : ℕ} {destroy : DestroySidecarRequest} {phase next : Phase} {r : Reply}
  {changes : List Change} {rest : List String}

lemma keepsTo_continueStops {request : Request}
    (h : ∀ r ∈ rest, RefKeepsTo cfg w destroy.allocationId r) :
    (continueStops request .destroy rest).KeepsTo cfg w destroy := by
  cases rest with
  | nil => trivial
  | cons ref rest => exact h

lemma keepsTo_afterTerminate {request : Request} {target : UnitRef}
    (ht : TargetKeepsTo cfg w destroy.allocationId target)
    (h : ∀ r ∈ rest, RefKeepsTo cfg w destroy.allocationId r) :
    (afterTerminate request (.stop .destroy rest) target).KeepsTo cfg w destroy := by
  simp only [afterTerminate]
  split
  · rename_i hm
    exact ⟨ht.dirs hm, h⟩
  · trivial

lemma phase_of_keepsTo (h : phase.KeepsTo cfg w destroy) :
    phase = .observing ∨ phase.isClosing ∨ ∃ result, phase = .returned result := by
  cases phase with
  | observing => exact .inl rfl
  | returned result => exact .inr (.inr ⟨result, rfl⟩)
  | listing purpose | reading purpose | stopping purpose | removing purpose
  | removingParent purpose =>
    cases purpose with
    | destroy => exact .inr (.inl rfl)
    | _ => exact h.elim
  | terminating after target =>
    cases after with
    | abandon failure => exact h.elim
    | stop purpose rest =>
      cases purpose with
      | destroy => exact .inr (.inl rfl)
      | _ => exact h.elim
  | _ => exact h.elim

/-- **One reply keeps a destroy to its allocation.** -/
lemma keepsTo_moves (hm : Moves cfg w (.destroy destroy) phase r next changes)
    (h : phase.KeepsTo cfg w destroy) :
    next.KeepsTo cfg (w.applyAll cfg.allocationsDir changes) destroy := by
  have hs : w.Shrinks (w.applyAll cfg.allocationsDir changes) := by
    refine shrinks_of_moves hm ?_
    rcases phase_of_keepsTo h with h | h | ⟨result, rfl⟩
    · exact .inl h
    · exact .inr h
    · simpa [Phase.isExecuting] using hm.isExecuting
  have refs : ∀ {l : List String}, (∀ r ∈ l, RefKeepsTo cfg w destroy.allocationId r) →
      ∀ r ∈ l, RefKeepsTo cfg (w.applyAll cfg.allocationsDir changes) destroy.allocationId r :=
    fun h r hr => (h r hr).mono hs
  cases hm with
  | @observedDestroy now destroy' is =>
    obtain rfl : destroy = destroy' := by simpa using is
    simp only [Phase.KeepsTo, Isolated] at h
    rcases afterObserveDestroy_cases now w.records destroy with
      ⟨ending, ha, -⟩ | ⟨record, ref, -, hres, ha⟩ | ⟨record, -, hres, ha⟩ <;> rw [ha]
    · trivial
    · rw [hres] at h
      simpa [Phase.KeepsTo] using h.mono hs
    · rw [hres] at h
      unfold enterListing
      split
      · rename_i hpat
        exact ⟨hpat, h.mono hs⟩
      · trivial
  | @listed purpose names all =>
    cases purpose with
    | destroy =>
      obtain ⟨hpat, hl⟩ := h
      cases names with
      | nil => trivial
      | cons entry entries => exact ⟨⟨hpat, hl.mono hs⟩, by simp⟩
    | _ => exact h.elim
  | @read purpose entry entries refs' =>
    cases purpose with
    | destroy =>
      obtain ⟨⟨hpat, hl⟩, hrefs⟩ := h
      have hrefs' : ∀ ref ∈ readEntry w (.destroy destroy) refs' entry,
          RefKeepsTo cfg w destroy.allocationId ref := by
        intro ref hmem
        rcases mem_readEntry hmem with hmem | ⟨generation, pid, hg, hp, ha, rfl⟩
        · exact hrefs ref hmem
        · exact hl hpat entry generation pid hg hp ha
      cases entries with
      | nil =>
        refine keepsTo_continueStops fun ref hmem => ?_
        exact (hrefs' ref (List.mem_eraseDups.mp hmem)).mono hs
      | cons entry' entries => exact ⟨⟨hpat, hl.mono hs⟩, refs hrefs'⟩
    | _ => exact h.elim
  | @unparsed purpose | @notStopped purpose | @notRemoved purpose | @parentNotRemoved purpose =>
    cases purpose with
    | destroy => trivial
    | _ => exact h.elim
  | @stopped purpose ref rest target parse =>
    cases purpose with
    | destroy =>
      have ht := (h ref List.mem_cons_self target parse).mono hs
      have hrest := refs fun r hr => h r (List.mem_cons_of_mem _ hr)
      rcases terminateStart_cases (w := w) with ⟨-, heq⟩ | ⟨-, heq⟩ <;> rw [heq] at ht hrest ⊢
      · exact ⟨ht, hrest⟩
      · exact keepsTo_afterTerminate ht hrest
    | _ => exact h.elim
  | @exited after target | @killed after target =>
    cases after with
    | abandon failure => exact h.elim
    | stop purpose rest =>
      cases purpose with
      | destroy => exact keepsTo_afterTerminate (h.1.mono hs) (refs h.2)
      | _ => exact h.elim
  | waited => exact h
  | @notTerminated after =>
    cases after with
    | abandon failure => exact h.elim
    | stop purpose rest =>
      cases purpose with
      | destroy => trivial
      | _ => exact h.elim
  | @removed purpose =>
    cases purpose with
    | destroy => exact refs h.2
    | _ => exact h.elim
  | @parentRemoved purpose =>
    cases purpose with
    | destroy => exact keepsTo_continueStops (refs h)
    | _ => exact h.elim
  | storeFailed | notListed | notRead => trivial
  | observedEnsure ensure is => simp at is
  | _ => exact h.elim

/-- What a destroy does while it keeps to its allocation keeps to it. -/
lemma keepsTo_changes (hm : Moves cfg w (.destroy destroy) phase r next changes)
    (h : phase.KeepsTo cfg w destroy) {change : Change} (hmem : change ∈ changes) :
    KeepsTo cfg w destroy.allocationId change := by
  cases change with
  | signal unit pid sig =>
    obtain ⟨halive, hsrc⟩ := hm.signal_mem hmem
    rcases hsrc with ⟨after, rfl⟩ | ⟨purpose, ref, rest, rfl, hparse⟩ | ⟨failure, rfl, rfl⟩
    · cases after with
      | abandon failure => exact h.elim
      | stop purpose rest =>
        cases purpose with
        | destroy => exact h.1.process halive
        | _ => exact h.elim
    · cases purpose with
      | destroy => exact (h ref List.mem_cons_self _ hparse).process halive
      | _ => exact h.elim
    · exact h.elim
  | removeUnitDir unit =>
    obtain ⟨purpose, target, rest, rfl, -, rfl⟩ := hm.removeUnitDir_mem hmem
    cases purpose with
    | destroy => exact h.1
    | _ => exact h.elim
  | _ => trivial

lemma isolates_of_keepsTo (hcall : s.calls c = some ⟨.destroy destroy, phase⟩)
    (h : phase.KeepsTo cfg s.world destroy) : Isolates cfg s c destroy.allocationId := by
  intro t ht
  have hinv : ∃ phase, t.calls c = some ⟨.destroy destroy, phase⟩ ∧
      phase.KeepsTo cfg t.world destroy := by
    refine ht.invariant (I := fun t => ∃ phase, t.calls c = some ⟨.destroy destroy, phase⟩ ∧
      phase.KeepsTo cfg t.world destroy) ⟨phase, hcall, h⟩ ?_
    rintro t e u ⟨phase, hcall, h⟩ ⟨r, rfl⟩ hst
    obtain ⟨request, phase', next, changes, hcall', ha, -, rfl⟩ := reply_cases hst
    obtain ⟨rfl, rfl⟩ := by simpa using hcall.symm.trans hcall'
    exact ⟨next, by simp, keepsTo_moves (advance_moves ha) h⟩
  obtain ⟨phase, hcall, h⟩ := hinv
  intro r change hmem
  obtain ⟨c', r', request, phase', next, changes, he, hcall', hm, hmem⟩ := mem_actionsOf hmem
  obtain ⟨rfl, rfl⟩ := Event.reply.inj he
  obtain ⟨rfl, rfl⟩ := by simpa using hcall.symm.trans hcall'
  exact keepsTo_changes hm h hmem

/-! ### Something else is touched when not -/

/-- An advance of a call is one of its own steps. -/
lemma step_of_advance {request : Request} (hcall : s.calls c = some ⟨request, phase⟩)
    (ha : advance cfg s.world request phase r = some (next, changes)) :
    step cfg s (.reply c r) = some ((s.setCall c ⟨request, next⟩).setWorld
        (s.world.applyAll cfg.allocationsDir changes)) ∧
      actionsOf cfg s (.reply c r) = changes := by
  simp [step, reply, actionsOf, hcall, ha]

/-- What a call does later it does from here on. -/
lemma Isolates.advance {request : Request} (h : Isolates cfg s c a)
    (hcall : s.calls c = some ⟨request, phase⟩)
    (ha : Provisioner.advance cfg s.world request phase r = some (next, changes)) :
    (∀ change ∈ changes, Provisioner.KeepsTo cfg s.world a change) ∧ ∃ t,
      t.calls c = some ⟨request, next⟩ ∧ t.world = s.world.applyAll cfg.allocationsDir changes ∧
      Isolates cfg t c a := by
  obtain ⟨hst, hact⟩ := step_of_advance hcall ha
  exact ⟨fun change hm => h s .refl r change (hact ▸ hm), _, by simp, rfl,
    fun t ht => h t (.head ⟨r, rfl⟩ hst ht)⟩

/-- A destroy that comes to a unit whose allocation can have a directory comes to its removal. -/
lemma reaches_removal (hi : Isolates cfg s c a)
    (hcall : s.calls c = some ⟨.destroy destroy, .stopping .destroy ref rest⟩)
    (hparse : parseExternalRef ref = some target) :
    (s.world.isAlive target.pid →
      ∃ generation, s.world.processes target.pid = some (.sidecar ⟨a, generation⟩)) ∧
    (matchesAllocationIdPattern target.unit.allocationId → ∃ t,
      t.calls c = some ⟨.destroy destroy, .removing .destroy target rest⟩ ∧ Isolates cfg t c a ∧
      (∀ pid, pid ≠ target.pid → t.world.processes pid = s.world.processes pid) ∧
      t.world.units = s.world.units) := by
  have hadv : advance cfg s.world (.destroy destroy) (.stopping .destroy ref rest) .done =
      some (terminateStart s.world (.destroy destroy) (.stop .destroy rest) target) := by
    simp only [advance, hparse]
  have after : matchesAllocationIdPattern target.unit.allocationId →
      afterTerminate (.destroy destroy) (.stop .destroy rest) target =
        .removing .destroy target rest := fun hpat => by simp [afterTerminate, hpat]
  rcases terminateStart_cases (w := s.world) with ⟨halive, h⟩ | ⟨hdead, h⟩ <;> rw [h] at hadv
  · obtain ⟨hkeeps, t, ht, hw, hi'⟩ := hi.advance hcall hadv
    refine ⟨fun _ => hkeeps _ List.mem_cons_self, fun hpat => ?_⟩
    have hw' : t.world = s.world := by rw [hw]; rfl
    have hkill : advance cfg t.world (.destroy destroy)
        (.terminating (.stop .destroy rest) target) (.polled true) =
        some (.removing .destroy target rest, [.signal target.unit target.pid .sigkill]) := by
      simp [advance, hw', halive, after hpat]
    obtain ⟨-, u, hu, hwu, hiu⟩ := hi'.advance ht hkill
    refine ⟨u, hu, hiu, fun pid hpid => ?_, ?_⟩
    · simp [hwu, hw', Function.update_of_ne hpid]
    · simp [hwu, hw']
  · obtain ⟨-, t, ht, hw, hi'⟩ := hi.advance hcall hadv
    refine ⟨fun halive => by simp [World.isAlive, hdead] at halive, fun hpat => ?_⟩
    rw [after hpat] at ht
    exact ⟨t, ht, hi', fun pid _ => by rw [hw]; rfl, by rw [hw]; rfl⟩

/-- Stopping one unit: what it touches is the allocation's, and after it the rest is stopped. -/
lemma stop_one (hi : Isolates cfg s c a)
    (hcall : s.calls c = some ⟨.destroy destroy, .stopping .destroy ref rest⟩)
    (hparse : parseExternalRef ref = some target) :
    TargetKeepsTo cfg s.world a target ∧
    (matchesAllocationIdPattern target.unit.allocationId → ∃ t,
      t.calls c = some ⟨.destroy destroy, continueStops (.destroy destroy) .destroy rest⟩ ∧
      Isolates cfg t c a ∧
      (∀ pid, pid ≠ target.pid → t.world.processes pid = s.world.processes pid) ∧
      ∀ dir, ¬ takesAway cfg.allocationsDir target.unit dir →
        t.world.units.get dir = s.world.units.get dir) := by
  obtain ⟨hprocess, hremoval⟩ := reaches_removal hi hcall hparse
  refine ⟨⟨hprocess, fun hpat => ?_⟩, fun hpat => ?_⟩ <;>
    obtain ⟨t, ht, hit, hproc, hunits⟩ := hremoval hpat <;>
    obtain ⟨hkeeps, u, hu, hwu, hiu⟩ := hit.advance (r := .done) ht rfl
  · rw [← hunits]
    exact hkeeps _ List.mem_cons_self
  · obtain ⟨-, v, hv, hwv, hiv⟩ := hiu.advance (r := .done) hu rfl
    refine ⟨v, hv, hiv, fun pid hpid => ?_, fun dir hdir => ?_⟩
    · simp [hwv, hwu, hproc pid hpid]
    · rw [hwv, hwu]
      change (t.world.apply cfg.allocationsDir (.removeUnitDir target.unit)).units.get dir = _
      rw [World.units_removeUnitDir, if_neg hdir, hunits]

/-- All units a destroy has to stop are its allocation's. -/
lemma keepsTo_of_isolates (hi : Isolates cfg s c destroy.allocationId)
    (hcall : s.calls c = some ⟨.destroy destroy, continueStops (.destroy destroy) .destroy rest⟩)
    (names : ∀ ref ∈ rest, ∃ target, parseExternalRef ref = some target ∧
      matchesAllocationIdPattern target.unit.allocationId) :
    ∀ ref ∈ rest, RefKeepsTo cfg s.world destroy.allocationId ref := by
  induction rest generalizing s with
  | nil => simp
  | cons ref rest ih =>
    obtain ⟨target, hparse, hpat⟩ := names ref List.mem_cons_self
    obtain ⟨hkeeps, hafter⟩ := stop_one hi hcall hparse
    obtain ⟨t, ht, hit, hproc, hunits⟩ := hafter hpat
    have hih := ih hit ht fun r hr => names r (List.mem_cons_of_mem _ hr)
    rintro ref' hmem target' hparse'
    rcases List.mem_cons.mp hmem with rfl | hmem
    · obtain rfl := Option.some.inj (hparse.symm.trans hparse')
      exact hkeeps
    · obtain ⟨hp', hd'⟩ := hih ref' hmem target' hparse'
      constructor
      · -- a process with the pid of the first unit is one of the allocation's already
        intro halive
        by_cases hpid : target'.pid = target.pid
        · rw [hpid] at halive ⊢
          exact hkeeps.process halive
        · have := hproc _ hpid
          rw [← this]
          exact hp' (by simpa [World.isAlive, this] using halive)
      · intro hm dir htakes hsome
        by_cases hdir : takesAway cfg.allocationsDir target.unit dir
        · exact hkeeps.dirs hpat dir hdir hsome
        · exact hd' hm dir htakes (by rwa [hunits dir hdir])

/-- Reading the entries one after the other. -/
lemma reads_all {entries refs : List String} (hi : Isolates cfg s c a)
    (hcall : s.calls c = some ⟨.destroy destroy,
      continueReading (.destroy destroy) .destroy refs entries⟩) :
    ∃ t, t.calls c = some ⟨.destroy destroy, continueStops (.destroy destroy) .destroy
        (entries.foldl (readEntry s.world (.destroy destroy)) refs).eraseDups⟩ ∧
      t.world = s.world ∧ Isolates cfg t c a := by
  induction entries generalizing s refs with
  | nil => exact ⟨s, hcall, rfl, hi⟩
  | cons entry entries ih =>
    obtain ⟨-, t, ht, hw, hit⟩ := hi.advance (r := .done) hcall rfl
    have hw' : t.world = s.world := by rw [hw]; rfl
    obtain ⟨u, hu, hwu, hiu⟩ := ih hit ht
    exact ⟨u, by rw [hu, hw']; rfl, by rw [hwu, hw'], hiu⟩

lemma subset_foldl_readEntry {request : Request} {entries refs : List String} :
    refs ⊆ entries.foldl (readEntry w request) refs := by
  induction entries generalizing refs with
  | nil => exact List.Subset.refl _
  | cons entry entries ih => exact List.Subset.trans subset_readEntry ih

/-- Every live process that a pid file names is found. -/
lemma mem_foldl_readEntry {request : Request} {entries refs : List String} {entry : String}
    {generation pid : ℕ} (hmem : entry ∈ entries) (hg : generationOf entry = some generation)
    (hp : w.readPidFile (request.allocationId, entry) = some pid) (ha : w.isAlive pid) :
    externalRefOf request.allocationId generation pid ∈
      entries.foldl (readEntry w request) refs := by
  induction entries generalizing refs with
  | nil => simp at hmem
  | cons entry' entries ih =>
    rcases List.mem_cons.mp hmem with rfl | hmem
    · rw [List.foldl_cons]
      exact subset_foldl_readEntry (readEntry_found hg hp ha)
    · exact ih hmem

/-- Only references to units of the allocation are found. -/
lemma of_mem_foldl_readEntry {request : Request} {entries refs : List String}
    (h : ref ∈ entries.foldl (readEntry w request) refs) :
    ref ∈ refs ∨ ∃ generation pid, 0 < pid ∧
      ref = externalRefOf request.allocationId generation pid := by
  induction entries generalizing refs with
  | nil => exact .inl h
  | cons entry entries ih =>
    rcases ih h with h | h
    · rcases mem_readEntry h with h | ⟨generation, pid, -, hp, -, rfl⟩
      · exact .inl h
      · exact .inr ⟨generation, pid, World.pos_of_readPidFile hp, rfl⟩
    · exact .inr h

/-- The unit of an allocation runs and is recorded. -/
def startedUnit (a : String) : List Event :=
  [.call 0 (ensureOf a 1), .reply 0 (.stored "t0"), .reply 0 (.spawned 7), .reply 0 .done,
    .reply 0 (.stored "t1"), .reply 0 (.listed ["gen-1"]), .reply 0 .done, .clear 0]

end Workbench.Provisioner
