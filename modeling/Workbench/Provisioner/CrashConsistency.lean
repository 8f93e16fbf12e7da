import Workbench.Provisioner.StateStore

/-!
What the state file holds, over all lifetimes of a hub.

A store reads from it what the acknowledged operations leave, one after the other, with nothing
between them but operations that were never acknowledged: a write that is reported to have failed
behind its rename, or one that a crash has cut off. Such an operation counts only if no later write
of the same lifetime has replaced the file, as the records in memory do not have it.
-/

namespace Workbench.Provisioner

open Workbench.Lib Workbench.Lib.Transition

/-- An operation and the time at which it decides. -/
structure Act where
  op : StoreOp
  now : String
  deriving DecidableEq, Repr

def Act.apply (m : Records) (a : Act) : Records := a.op.apply a.now m

/-- The operation whose write is in the file already, and which has not been answered. -/
def StoreState.inFlight (s : StoreState) : List Act :=
  match s.running with
  | some ⟨job, .renamed now _ _⟩ => [⟨job.op, now⟩]
  | _ => []

/-- A store, the operations that have been acknowledged in all lifetimes of the hub, and those that
have come into the file and never will be. -/
structure StoreLog where
  store : StoreState
  acknowledged : List Act
  unacknowledged : List Act

def acknowledgedBy (s t : StoreState) : StoreEvent → List Act
  | .initialized now =>
    match s.running with
    | some ⟨job, _⟩ =>
      if t.running = none ∧ t.outcomes job.call ≠ some .threw then [⟨job.op, now⟩] else []
    | none => []
  | .written => s.inFlight
  | _ => []

def abandonedBy (s : StoreState) : StoreEvent → List Act
  | .failed | .crash => s.inFlight
  | _ => []

def StoreLog.step (l : StoreLog) (e : StoreEvent) : Option StoreLog :=
  (storeStep l.store e).map fun t =>
    { store := t
      acknowledged := l.acknowledged ++ acknowledgedBy l.store t e
      unacknowledged := l.unacknowledged ++ abandonedBy l.store e }

def StoreLog.init (file : Option String) : StoreLog := ⟨.fresh file, [], []⟩

/-- What the checks of the requests admit. -/
def StoreOp.Admitted : StoreOp → Prop
  | .observeEnsure args => args.allocationId ≠ "" ∧ args.sidecarId ≠ ""
  | .observeDestroy args => args.allocationId ≠ "" ∧ args.sidecarId ≠ ""
  | .recordUnit _ => True

/-- Operations have been checked, and a time is a text. -/
def admits (_ : StoreLog) : StoreEvent → Prop
  | .call _ op => op.Admitted
  | .initialized now => now ≠ ""
  | _ => True

/-- Operations in the order of their effects, each with whether it was acknowledged. -/
abbrev Effects := List (Act × Bool)

def Effects.marked (effects : Effects) (acknowledged : Bool) : List Act :=
  (effects.filter fun effect => effect.2 = acknowledged).map Prod.fst

def Effects.outcome (effects : Effects) (base : Records) : Records :=
  (effects.map Prod.fst).foldl Act.apply base

/-- The file holds these effects: all that was acknowledged, and nothing else but what was not. -/
structure Explains (base : Records) (effects : Effects) (l : StoreLog) : Prop where
  acknowledged : effects.marked true = l.acknowledged
  unacknowledged :
    (effects.marked false).Sublist (l.unacknowledged ++ l.store.inFlight)
  loads : Loads l.store.file (effects.outcome base)

/-! ### Requests -/

lemma admitted_of_ensure {request : EnsureSidecarRequest}
    (h : validateEnsureRequest request = none) :
    (StoreOp.observeEnsure (Request.ensure request).observeArgs).Admitted := by
  unfold validateEnsureRequest at h
  split_ifs at h with ha hs
  exact ⟨ha, hs⟩

lemma admitted_of_destroy {request : DestroySidecarRequest}
    (h : validateDestroyRequest request = none) :
    (StoreOp.observeDestroy (Request.destroy request).observeArgs).Admitted := by
  unfold validateDestroyRequest at h
  split_ifs at h with ha hs
  exact ⟨ha, hs⟩

/-- **What an admitted operation persists passes the check of the file.** -/
lemma valid_of_decide {op : StoreOp} {now : String} {m : Records} {answer : StoreAnswer}
    {record : AllocationRecord} (hop : op.Admitted) (hnow : now ≠ "") (hm : m.Valid)
    (h : op.decide now m = (answer, some record)) : record.Valid := by
  cases op with
  | observeEnsure args =>
    have hs := observeEnsure_spec now m args
    simp only [StoreOp.decide] at h
    generalize observeEnsure now m args = d at h hs
    cases hs <;> simp at h
    obtain ⟨-, rfl⟩ := h
    exact ⟨hop.1, hop.2, hnow⟩
  | observeDestroy args =>
    have hs := observeDestroy_spec now m args
    simp only [StoreOp.decide] at h
    generalize observeDestroy now m args = d at h hs
    cases hs <;> simp at h
    obtain ⟨-, rfl⟩ := h
    exact ⟨hop.1, hop.2, hnow⟩
  | recordUnit args =>
    have hs := recordUnit_spec now m args
    simp only [StoreOp.decide] at h
    generalize recordUnit now m args = d at h hs
    cases hs with
    | no => simp at h
    | yes r get =>
      obtain ⟨-, rfl⟩ : _ ∧ unitRecord now r args.externalRef = record := by simpa using h
      obtain ⟨ha, hsidecar, -⟩ := hm _ r get
      exact ⟨ha, hsidecar, hnow⟩

/-! ### Effects -/

section Effects

variable {effects : Effects} {base : Records} {a : Act} {pending : List Act} {b : Bool}

/-- The pending operation is one that will not be acknowledged. -/
def Effects.abandon (effects : Effects) (pending : List Act) : Effects :=
  effects ++ pending.map fun a => (a, false)

lemma outcome_concat : (effects ++ [(a, b)]).outcome base = a.apply (effects.outcome base) := by
  simp [Effects.outcome]

lemma outcome_abandon :
    (effects.abandon pending).outcome base = pending.foldl Act.apply (effects.outcome base) := by
  simp [Effects.outcome, Effects.abandon, List.foldl_map]

lemma marked_concat : (effects ++ [(a, b)]).marked b = effects.marked b ++ [a] := by
  simp [Effects.marked]

lemma marked_concat_other {c : Bool} (h : b ≠ c) :
    (effects ++ [(a, b)]).marked c = effects.marked c := by
  simp [Effects.marked, h]

lemma marked_true_abandon : (effects.abandon pending).marked true = effects.marked true := by
  simp [Effects.marked, Effects.abandon]

lemma marked_false_abandon :
    (effects.abandon pending).marked false = effects.marked false ++ pending := by
  simp [Effects.marked, Effects.abandon, List.filter_map, Function.comp_def]

end Effects

/-! ### Runs -/

/-- Where a run is: the effects that the records in memory have, and what the file has on top. -/
structure Tracks (base : Records) (effects : Effects) (pending : List Act) (l : StoreLog) :
    Prop where
  acknowledged : effects.marked true = l.acknowledged
  unacknowledged :
    (effects.marked false ++ pending).Sublist (l.unacknowledged ++ l.store.inFlight)
  valid : (effects.outcome base).Valid
  loads : Loads l.store.file (pending.foldl Act.apply (effects.outcome base))
  memory : (l.store.Ready ∧ l.store.records = effects.outcome base) ∨
    (l.store.Unready ∧ l.store.records = .empty ∧ pending = [])
  queued : ∀ job ∈ l.store.queue, job.op.Admitted
  running : ∀ r ∈ l.store.running, r.job.op.Admitted
  writing : ∀ job now record answer, l.store.running = some ⟨job, .writing now record answer⟩ →
    record.Valid
  renamed : ∀ job now record answer, l.store.running = some ⟨job, .renamed now record answer⟩ →
    pending = [⟨job.op, now⟩]

section Runs

variable {base : Records} {effects : Effects} {pending : List Act} {l l' : StoreLog}
  {s t : StoreState} {e : StoreEvent}

lemma valid_of_loads {file : Option String} {m : Records} (h : Loads file m) : m.Valid := by
  have hvalid : (loadInto .empty file).2.Valid := valid_loadInto Records.valid_empty
  rwa [h] at hvalid

lemma Tracks.init {file : Option String} (h : Loads file base) :
    Tracks base [] [] (.init file) where
  acknowledged := rfl
  unacknowledged := List.nil_sublist _
  valid := valid_of_loads h
  loads := h
  memory := .inr ⟨StoreState.unready_fresh file, rfl, rfl⟩
  queued := by simp [StoreLog.init, StoreState.fresh]
  running := by simp [StoreLog.init, StoreState.fresh]
  writing := by simp [StoreLog.init, StoreState.fresh]
  renamed := by simp [StoreLog.init, StoreState.fresh]

/-- A fresh store reads the effects in memory and then the pending one. -/
lemma Tracks.explains (h : Tracks base effects pending l) :
    Explains base (effects.abandon pending) l where
  acknowledged := marked_true_abandon.trans h.acknowledged
  unacknowledged := marked_false_abandon ▸ h.unacknowledged
  loads := outcome_abandon ▸ h.loads

/-- A step that does not initialize the store. -/
lemma ready_of_step (h : StoreHappens s e t) (he : e ≠ .crash)
    (hinit : t.initialized = s.initialized) : (s.Ready → t.Ready) ∧ (s.Unready → t.Unready) := by
  refine ⟨fun hs => (hs.step he h).1, fun hs => ?_⟩
  rcases hs.step h with hready | hunready
  · have hnot : t.initialized = false := hinit.trans hs.1
    rw [hready.initialized] at hnot
    cases hnot
  · exact hunready

/-- Nothing runs in a store that is ready. -/
lemma Tracks.of_idle (hr : s.running = none) (hready : s.Ready)
    (hqueue : ∀ job ∈ s.queue, job.op.Admitted) (hm : s.records = effects.outcome base)
    (hvalid : (effects.outcome base).Valid)
    (hloads : Loads s.file (pending.foldl Act.apply (effects.outcome base)))
    {acknowledged unacknowledged : List Act} (hack : effects.marked true = acknowledged)
    (hun : (effects.marked false ++ pending).Sublist unacknowledged) :
    Tracks base effects pending ⟨s, acknowledged, unacknowledged⟩ where
  acknowledged := hack
  unacknowledged := hun.trans (List.sublist_append_left _ _)
  valid := hvalid
  loads := hloads
  memory := .inl ⟨hready, hm⟩
  queued := hqueue
  running := by simp [hr]
  writing := by simp [hr]
  renamed := by simp [hr]

lemma Tracks.call (h : Tracks base effects pending l) {c : ℕ} {op : StoreOp} (hop : op.Admitted)
    (hh : StoreHappens l.store (.call c op)
      { l.store with queue := l.store.queue ++ [⟨c, op⟩] }) :
    Tracks base effects pending
      { l with store := { l.store with queue := l.store.queue ++ [⟨c, op⟩] } } where
  acknowledged := h.acknowledged
  unacknowledged := h.unacknowledged
  valid := h.valid
  loads := h.loads
  memory := h.memory.imp (fun ⟨hready, hm⟩ => ⟨(ready_of_step hh (by simp) rfl).1 hready, hm⟩)
    fun ⟨hunready, hm, hp⟩ => ⟨(ready_of_step hh (by simp) rfl).2 hunready, hm, hp⟩
  queued job hjob := by
    rcases List.mem_append.mp hjob with hold | hnew
    · exact h.queued job hold
    · obtain rfl := List.mem_singleton.mp hnew
      exact hop
  running := h.running
  writing := h.writing
  renamed := h.renamed

/-- A step before which nothing is persisted and after which nothing is. -/
lemma Tracks.keep (h : Tracks base effects pending l) (hh : StoreHappens l.store e t)
    (he : e ≠ .crash) (hfile : t.file = l.store.file) (hrecords : t.records = l.store.records)
    (hinit : t.initialized = l.store.initialized) (hflight : l.store.inFlight = [])
    (hqueued : ∀ job ∈ t.queue, job.op.Admitted) (hrunning : ∀ r ∈ t.running, r.job.op.Admitted)
    (hstage : ∀ job stage, t.running = some ⟨job, stage⟩ → stage = .initializing) :
    Tracks base effects pending { l with store := t } where
  acknowledged := h.acknowledged
  unacknowledged := by
    have hold := h.unacknowledged
    rw [hflight, List.append_nil] at hold
    exact hold.trans (List.sublist_append_left _ _)
  valid := h.valid
  loads := hfile ▸ h.loads
  memory := by
    rcases h.memory with ⟨hr, hm⟩ | ⟨hu, hm, hp⟩
    · exact .inl ⟨(ready_of_step hh he hinit).1 hr, hrecords.trans hm⟩
    · exact .inr ⟨(ready_of_step hh he hinit).2 hu, hrecords.trans hm, hp⟩
  queued := hqueued
  running := hrunning
  writing job now record answer hr := by cases hstage _ _ hr
  renamed job now record answer hr := by cases hstage _ _ hr

/-- What `initialize` finds is the effects so far. -/
lemma Tracks.loaded (h : Tracks base effects pending l) {records : Records}
    (ready : (l.store.initialized ∧ records = l.store.records) ∨ (l.store.initialized = false ∧
      loadInto l.store.records l.store.file = (.ok (), records))) :
    records = effects.outcome base := by
  rcases h.memory with ⟨hr, hm⟩ | ⟨hu, hm, hp⟩
  · rcases ready with ⟨-, rfl⟩ | ⟨hnot, -⟩
    · exact hm
    · rw [hr.initialized] at hnot
      cases hnot
  · rcases ready with ⟨hinit, -⟩ | ⟨-, hload⟩
    · rw [hu.1] at hinit
      cases hinit
    · have hloads := h.loads
      rw [hp, List.foldl_nil, Loads] at hloads
      rw [hm, hloads] at hload
      exact (Prod.mk.inj hload).2.symm

/-- An operation that persists works on a store that is ready. -/
lemma Tracks.ready_of_persisting (h : Tracks base effects pending l) {job : Job} {stage : Stage}
    (hr : l.store.running = some ⟨job, stage⟩) (hstage : stage ≠ .initializing) :
    l.store.Ready ∧ l.store.records = effects.outcome base := by
  rcases h.memory with hready | ⟨hu, -, -⟩
  · exact hready
  · exact absurd (hu.2 _ _ hr) hstage

lemma Tracks.operate (h : Tracks base effects pending l) {job : Job} {now : String}
    {records : Records} (hnow : now ≠ "") (hr : l.store.running = some ⟨job, .initializing⟩)
    (hrecords : records = effects.outcome base)
    (ht : t = { l.store with records := records, initialized := true }.operate job now)
    (hh : StoreHappens l.store (.initialized now) t) :
    ∃ effects', Tracks base effects' pending ⟨t, l.acknowledged ++
      acknowledgedBy l.store t (.initialized now), l.unacknowledged⟩ := by
  have hready : t.Ready := by
    rcases h.memory with ⟨hready, -⟩ | ⟨hunready, -, -⟩
    · exact (hready.step (by simp) hh).1
    · refine (hunready.step hh).resolve_right fun hnot => ?_
      have hinit : t.initialized = true := by
        rcases operate_cases { l.store with records := records, initialized := true } job now with
          ⟨answer, -, heq⟩ | ⟨answer, record, -, heq⟩
        · rw [ht, heq]
          rfl
        · rw [ht, heq]
      rw [hnot.1] at hinit
      cases hinit
  have hflight : l.store.inFlight = [] := by
    rw [StoreState.inFlight, hr]
  have hsub := h.unacknowledged
  rw [hflight, List.append_nil] at hsub
  have hop : job.op.Admitted := h.running _ hr
  rcases operate_cases { l.store with records := records, initialized := true } job now with
    ⟨answer, hdec, heq⟩ | ⟨answer, record, hdec, heq⟩ <;> rw [heq] at ht
  · -- the answer is given at once, and nothing is persisted
    refine ⟨effects ++ [(⟨job.op, now⟩, true)], ?_⟩
    have hsame : (effects ++ [((⟨job.op, now⟩ : Act), true)]).outcome base =
        effects.outcome base := by
      have hdec : job.op.decide now records = (answer, none) := hdec
      rw [outcome_concat, ← hrecords, Act.apply, StoreOp.apply, hdec]
    have hack : acknowledgedBy l.store t (.initialized now) = [⟨job.op, now⟩] := by
      subst ht
      simp [acknowledgedBy, hr, StoreState.settle]
    have hidle : t.running = none := by
      rw [ht]
      rfl
    refine .of_idle hidle hready ?_ ?_ ?_ ?_ ?_ ?_
    · rw [ht]
      exact h.queued
    · rw [hsame, ht]
      exact hrecords
    · exact hsame ▸ h.valid
    · rw [hsame, ht]
      exact h.loads
    · rw [marked_concat, h.acknowledged, hack]
    · rw [marked_concat_other (by decide)]
      exact hsub
  · refine ⟨effects, ?_⟩
    have hrunning : t.running = some ⟨job, .writing now record answer⟩ := by
      rw [ht]
    have hack : acknowledgedBy l.store t (.initialized now) = [] := by
      simp [acknowledgedBy, hr, hrunning]
    constructor
    · rw [hack, List.append_nil, h.acknowledged]
    · exact hsub.trans (List.sublist_append_left _ _)
    · exact h.valid
    · rw [ht]
      exact h.loads
    · refine .inl ⟨hready, ?_⟩
      rw [ht]
      exact hrecords
    · rw [ht]
      exact h.queued
    · simpa [hrunning] using hop
    · intro job' now' record' answer' hr'
      obtain ⟨rfl, rfl, rfl, rfl⟩ := by simpa [hrunning] using hr'
      exact valid_of_decide hop hnow h.valid (hrecords ▸ hdec)
    · simp [hrunning]

lemma Tracks.rename (h : Tracks base effects pending l) {job : Job} {now : String}
    {record : AllocationRecord} {answer : StoreAnswer}
    (hr : l.store.running = some ⟨job, .writing now record answer⟩) :
    Tracks base effects [⟨job.op, now⟩] ⟨{ l.store with
      file := some (contents (l.store.records.put record))
      running := some ⟨job, .renamed now record answer⟩ }, l.acknowledged, l.unacknowledged⟩ := by
  obtain ⟨hready, hm⟩ := h.ready_of_persisting hr (by simp)
  have hvalid : record.Valid := h.writing _ _ _ _ hr
  have hdec : job.op.decide now l.store.records = (answer, some record) :=
    hready.decided _ _ _ _ (.inl hr)
  have hafter : Act.apply (effects.outcome base) ⟨job.op, now⟩ = l.store.records.put record := by
    rw [← hm, Act.apply, StoreOp.apply, hdec]
  have hsub := h.unacknowledged
  rw [StoreState.inFlight, hr, List.append_nil] at hsub
  constructor
  · exact h.acknowledged
  · exact ((List.sublist_append_left _ _).trans hsub).append_right _
  · exact h.valid
  · rw [List.foldl_cons, List.foldl_nil, hafter]
    exact loads_contents ((hm ▸ h.valid).put hvalid)
  · exact .inl ⟨(hready.step (by simp) (.renamed hr)).1, hm⟩
  · exact h.queued
  · simpa using h.running _ hr
  · simp
  · intro job' now' record' answer' hr'
    obtain ⟨rfl, rfl, rfl, rfl⟩ := by simpa using hr'
    rfl

/-- The pending operation is acknowledged. -/
lemma Tracks.write (h : Tracks base effects pending l) {job : Job} {now : String}
    {record : AllocationRecord} {answer : StoreAnswer}
    (hr : l.store.running = some ⟨job, .renamed now record answer⟩) :
    Tracks base (effects ++ [(⟨job.op, now⟩, true)]) []
      ⟨{ l.store with records := l.store.records.put record }.settle job (.answered answer),
        l.acknowledged ++ [⟨job.op, now⟩], l.unacknowledged⟩ := by
  obtain ⟨hready, hm⟩ := h.ready_of_persisting hr (by simp)
  have hpending : pending = [⟨job.op, now⟩] := h.renamed _ _ _ _ hr
  have hdec : job.op.decide now l.store.records = (answer, some record) :=
    hready.decided _ _ _ _ (.inr hr)
  have hafter : (effects ++ [((⟨job.op, now⟩ : Act), true)]).outcome base =
      l.store.records.put record := by
    rw [outcome_concat, ← hm, Act.apply, StoreOp.apply, hdec]
  have hloads : Loads l.store.file ((effects ++ [((⟨job.op, now⟩ : Act), true)]).outcome base) := by
    have hold := h.loads
    rw [hpending] at hold
    rwa [outcome_concat]
  have hsub := h.unacknowledged
  rw [StoreState.inFlight, hr, hpending, List.append_sublist_append_right] at hsub
  refine .of_idle rfl ((hready.step (by simp) (.written hr)).1) h.queued hafter.symm
    (valid_of_loads hloads) ?_ ?_ ?_
  · exact hloads
  · rw [marked_concat, h.acknowledged]
  · rw [marked_concat_other (by decide), List.append_nil]
    exact hsub

/-- The pending operation will not be acknowledged, but is in the file. -/
lemma Tracks.fail (h : Tracks base effects pending l) {job : Job} {stage : Stage}
    (hr : l.store.running = some ⟨job, stage⟩) (hstage : stage ≠ .initializing) :
    Tracks base effects pending
      ⟨l.store.settle job .threw, l.acknowledged, l.unacknowledged ++ l.store.inFlight⟩ := by
  obtain ⟨hready, hm⟩ := h.ready_of_persisting hr hstage
  exact .of_idle rfl ((hready.step (by simp) (.failed hr hstage)).1) h.queued hm h.valid h.loads
    h.acknowledged h.unacknowledged

/-- A crash makes what is pending part of what the next store finds. -/
lemma Tracks.crash (h : Tracks base effects pending l) :
    Tracks base (effects.abandon pending) []
      ⟨.fresh l.store.file, l.acknowledged, l.unacknowledged ++ l.store.inFlight⟩ := by
  have hloads : Loads l.store.file ((effects.abandon pending).outcome base) :=
    outcome_abandon ▸ h.loads
  constructor
  · exact marked_true_abandon.trans h.acknowledged
  · rw [marked_false_abandon, List.append_nil]
    exact h.unacknowledged.trans (List.sublist_append_left _ _)
  · exact valid_of_loads hloads
  · exact hloads
  · exact .inr ⟨StoreState.unready_fresh _, rfl, rfl⟩
  all_goals simp [StoreState.fresh]

/-- **What a step does to the effects.** -/
lemma Tracks.step (h : Tracks base effects pending l) (hguard : admits l e)
    (hstep : l.step e = some l') : ∃ effects' pending', Tracks base effects' pending' l' := by
  obtain ⟨t, ht, rfl⟩ := Option.map_eq_some_iff.mp hstep
  have hh := storeStep_happens ht
  cases hh with
  | called new =>
    exact ⟨effects, pending, by
      simpa [acknowledgedBy, abandonedBy] using h.call hguard (.called new)⟩
  | @started job rest idle queue =>
    have hadmitted := h.queued
    rw [queue] at hadmitted
    have hkeep := h.keep (.started idle queue) (by simp) rfl rfl rfl
      (by rw [StoreState.inFlight, idle]) (fun job' hjob => hadmitted job' (by simp [hjob]))
      (by simpa using hadmitted job (by simp)) (by simp)
    exact ⟨effects, pending, by simpa [acknowledgedBy, abandonedBy] using hkeep⟩
  | @operated job now records running ready =>
    obtain ⟨effects', htracks⟩ :=
      h.operate hguard running (h.loaded ready) rfl (.operated running ready)
    exact ⟨effects', pending, by simpa [abandonedBy] using htracks⟩
  | unloaded running new load =>
    rcases h.memory with ⟨hr, -⟩ | ⟨-, hm, hp⟩
    · rw [hr.initialized] at new
      cases new
    · have hloads := h.loads
      rw [hp, List.foldl_nil, Loads] at hloads
      rw [hm, hloads] at load
      cases (Prod.mk.inj load).1
  | unread running new =>
    have hkeep := h.keep (.unread running new) (by simp) rfl rfl rfl
      (by rw [StoreState.inFlight, running]) h.queued (by simp [StoreState.settle])
      (by simp [StoreState.settle])
    exact ⟨effects, pending, by simpa [acknowledgedBy, abandonedBy] using hkeep⟩
  | @renamed job now record answer running =>
    exact ⟨effects, [⟨job.op, now⟩], by
      simpa [acknowledgedBy, abandonedBy] using h.rename running⟩
  | @written job now record answer running =>
    have hflight : l.store.inFlight = [⟨job.op, now⟩] := by
      rw [StoreState.inFlight, running]
    exact ⟨_, [], by simpa [acknowledgedBy, abandonedBy, hflight] using h.write running⟩
  | failed running persisting =>
    exact ⟨effects, pending, by
      simpa [acknowledgedBy, abandonedBy] using h.fail running persisting⟩
  | crashed =>
    exact ⟨effects.abandon pending, [], by simpa [acknowledgedBy, abandonedBy] using h.crash⟩

end Runs

/-- **Crash consistency.** In every state of every run, whichever writes fail and whenever the hub
crashes, a fresh store reads the file without an error, and finds what the acknowledged operations
leave, one after the other, and between them nothing but operations that have come into the file and
were never acknowledged. -/
theorem crash_consistent {base : Records} {file : Option String} (hfile : Loads file base)
    {l : StoreLog} (h : Reach StoreLog.step admits (.init file) l) :
    ∃ effects : Effects, Explains base effects l := by
  have hinv : ∃ effects pending, Tracks base effects pending l := by
    refine h.invariant (I := fun l => ∃ effects pending, Tracks base effects pending l)
      ⟨[], [], .init hfile⟩ ?_
    rintro l e l' ⟨effects, pending, htracks⟩ hguard hstep
    exact htracks.step hguard hstep
  obtain ⟨effects, pending, htracks⟩ := hinv
  exact ⟨effects.abandon pending, htracks.explains⟩

/-- One allocation is acknowledged, the write of a second fails behind its rename, and the hub
crashes behind the rename of a third. -/
def crashed : List StoreEvent :=
  [.call 0 (.observeEnsure ⟨"a", "sidecar", 1⟩), .start, .initialized "t0", .renamed, .written,
    .call 1 (.observeEnsure ⟨"b", "sidecar", 1⟩), .start, .initialized "t1", .renamed, .failed,
    .call 2 (.observeEnsure ⟨"c", "sidecar", 1⟩), .start, .initialized "t2", .renamed, .crash]

theorem crash_consistent_crashed : ∃ l, run StoreLog.step (.init none) crashed = some l ∧
    l.acknowledged = [⟨.observeEnsure ⟨"a", "sidecar", 1⟩, "t0"⟩] ∧
    l.unacknowledged = [⟨.observeEnsure ⟨"b", "sidecar", 1⟩, "t1"⟩,
      ⟨.observeEnsure ⟨"c", "sidecar", 1⟩, "t2"⟩] ∧ ∃ effects, Explains .empty effects l := by
  have hend : ∃ l, run StoreLog.step (.init none) crashed = some l ∧
      l.acknowledged = [⟨.observeEnsure ⟨"a", "sidecar", 1⟩, "t0"⟩] ∧
      l.unacknowledged = [⟨.observeEnsure ⟨"b", "sidecar", 1⟩, "t1"⟩,
        ⟨.observeEnsure ⟨"c", "sidecar", 1⟩, "t2"⟩] := ⟨_, rfl, rfl, rfl⟩
  have hadmits : ∀ e ∈ crashed, ∀ l, admits l e := by
    intro e he l
    simp only [crashed, List.mem_cons, List.not_mem_nil, or_false] at he
    rcases he with rfl | rfl | rfl | rfl | rfl | rfl | rfl | rfl | rfl | rfl | rfl | rfl | rfl |
      rfl | rfl <;> simp [admits, StoreOp.Admitted]
  obtain ⟨l, hrun, hack, hun⟩ := hend
  exact ⟨l, hrun, hack, hun, crash_consistent (rfl : Loads none .empty)
    (reach_of_allowed hadmits hrun)⟩

end Workbench.Provisioner
