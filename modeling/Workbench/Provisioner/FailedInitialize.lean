import Workbench.Provisioner.StateStore

/-!
What a failed `initialize` leaves behind.

The loop that reads the records puts each of them into memory before it looks at the next. If it
finds an allocation for the second time it throws, and the records before it stay; the next
operation reads the file again, into a memory that has them already. All other failures come before
the first record.
-/

namespace Workbench.Provisioner

open Workbench.Lib Workbench.Lib.Transition

/-- A file from which no store is initialized, whatever it has in memory. -/
def Unloadable (file : Option String) : Prop := ∀ m, Loads file m → False

/-- The state in which an operation on a fresh store has thrown, because its `initialize` did. -/
structure FailedOn (bad : Option String) (c : ℕ) (e : StoreEvent) (s : StoreState) : Prop where
  ran : ∃ op, run storeStep (.fresh bad) [.call c op, .start, e] = some s
  threw : s.outcomes c = some .threw

/-- The records of the file are read, and one allocation is among them twice. -/
def FoundDuplicate (bad : Option String) : StoreEvent → Prop
  | .initialized _ => ∃ allocationId, (loadInto .empty bad).1 = .error (.duplicate allocationId)
  | _ => False

/-- What is seen of a store from outside, but for the call that has failed. -/
def StoreState.look (c : ℕ) (s : StoreState) : Option String × (ℕ → Option Outcome) :=
  (s.file, Function.update s.outcomes c none)

/-- All operations that follow behave as on a fresh store. -/
def BehavesAsFresh (c : ℕ) (s : StoreState) (repaired : Option String) : Prop :=
  ∀ es : List StoreEvent, (∀ e ∈ es, ∀ op, e ≠ .call c op) →
    (run storeStep { s with file := repaired } es).map (StoreState.look c) =
      (run storeStep (.fresh repaired) es).map (StoreState.look c)

variable {bad repaired file : Option String} {c : ℕ} {e : StoreEvent} {s t : StoreState}
  {m records : Records} {loaded : List AllocationRecord}

/-! ### Reading into records that are there -/

lemma addRecords_ok_of_ok (h : (addRecords m loaded).1 = .ok ())
    (hsub : ∀ k, (records.get k).isSome → (m.get k).isSome) :
    (addRecords records loaded).1 = .ok () := by
  induction loaded generalizing m records with
  | nil => rfl
  | cons record rest ih =>
    rw [addRecords] at h ⊢
    split_ifs at h with hm
    rw [if_neg fun hr => hm (hsub _ hr)]
    refine ih h fun k hk => ?_
    rw [Records.get_put] at hk ⊢
    split_ifs at hk ⊢
    · rfl
    · exact hsub k hk

/-- A record that is in memory is not read again. -/
lemma addRecords_error_of_mem (hmem : ∃ r ∈ loaded, (m.get r.allocationId).isSome) :
    (addRecords m loaded).1 ≠ .ok () := by
  induction loaded generalizing m with
  | nil => simp at hmem
  | cons record rest ih =>
    rw [addRecords]
    split_ifs with hm
    · simp
    · obtain ⟨r, hr, hget⟩ := hmem
      rcases List.mem_cons.mp hr with rfl | hr
      · exact absurd hget hm
      · refine ih ⟨r, hr, ?_⟩
        rw [Records.get_put]
        split_ifs
        · rfl
        · exact hget

/-- What is in memory afterwards was there or has been read. -/
lemma mem_of_addRecords {k : String} {r : AllocationRecord}
    (h : (addRecords m loaded).2.get k = some r) :
    m.get k = some r ∨ ∃ r' ∈ loaded, r'.allocationId = k := by
  induction loaded generalizing m with
  | nil => exact .inl h
  | cons record rest ih =>
    rw [addRecords] at h
    split_ifs at h with hm
    · exact .inl h
    · rcases ih h with hget | ⟨r', hr', hk⟩
      · rw [Records.get_put] at hget
        split_ifs at hget with hk
        · exact .inr ⟨record, List.mem_cons_self, hk.symm⟩
        · exact .inl hget
      · exact .inr ⟨r', List.mem_cons_of_mem _ hr', hk⟩

lemma addRecords_keeps {k : String} {r : AllocationRecord} (h : m.get k = some r) :
    (addRecords m loaded).2.get k = some r := by
  induction loaded generalizing m with
  | nil => exact h
  | cons record rest ih =>
    rw [addRecords]
    split_ifs with hm
    · exact h
    · refine ih ?_
      rw [Records.get_put_of_ne, h]
      rintro rfl
      simp [h] at hm

lemma get_of_duplicate {allocationId : String}
    (h : (addRecords m loaded).1 = .error (.duplicate allocationId)) :
    ((addRecords m loaded).2.get allocationId).isSome := by
  induction loaded generalizing m with
  | nil => cases h
  | cons record rest ih =>
    rw [addRecords] at h ⊢
    split_ifs at h ⊢ with hm
    · obtain rfl := LoadError.duplicate.inj (Except.error.inj h)
      exact hm
    · exact ih h

/-- What reading a file comes to. -/
lemma loadInto_cases (file : Option String) :
    (∃ loaded, ∀ m, loadInto m file = addRecords m loaded) ∨
      ∃ error, (∀ allocationId, error ≠ .duplicate allocationId) ∧
        ∀ m, loadInto m file = (.error error, m) := by
  cases file with
  | none => exact .inl ⟨[], fun m => rfl⟩
  | some raw =>
    simp only [loadInto]
    cases Json.parse stateNumerals raw.toList with
    | none => exact .inr ⟨.invalidJson, by simp, fun m => rfl⟩
    | some parsed =>
      dsimp only
      cases stateFileOf parsed with
      | none => exact .inr ⟨.invalidState, by simp, fun m => rfl⟩
      | some loaded => exact .inl ⟨loaded, fun m => rfl⟩

/-- A file that no fresh store reads is read into no records. -/
lemma Unloadable.error (h : Unloadable file) (m : Records) : (loadInto m file).1 ≠ .ok () := by
  rcases loadInto_cases file with ⟨loaded, hload⟩ | ⟨error, -, hload⟩
  · rw [hload]
    intro hok
    have hempty : (addRecords .empty loaded).1 = .ok () := addRecords_ok_of_ok hok (by simp)
    refine h (addRecords .empty loaded).2 ?_
    rw [Loads, hload]
    exact Prod.ext hempty rfl
  · rw [hload]
    simp

lemma duplicate_of_error {error : LoadError} (h : (addRecords m loaded).1 = .error error) :
    ∃ allocationId, error = .duplicate allocationId := by
  induction loaded generalizing m with
  | nil => cases h
  | cons record rest ih =>
    rw [addRecords] at h
    split_ifs at h with hm
    · exact ⟨record.allocationId, (Except.error.inj h).symm⟩
    · exact ih h

/-- The records stay as they are unless there is a duplicate. -/
lemma loadInto_records {error : LoadError} (h : (loadInto m file).1 = .error error)
    (hnot : ∀ allocationId, error ≠ .duplicate allocationId) : (loadInto m file).2 = m := by
  rcases loadInto_cases file with ⟨loaded, hload⟩ | ⟨error', -, hload⟩
  · rw [hload] at h
    obtain ⟨allocationId, heq⟩ := duplicate_of_error h
    exact absurd heq (hnot allocationId)
  · rw [hload]

/-! ### The state that is left -/

/-- Nothing is left but the records that were read, and the outcome. -/
lemma FailedOn.eq (h : FailedOn bad c e s) : ∃ records,
    s = { StoreState.fresh bad with
      records := records
      outcomes := Function.update (fun _ => none) c (some .threw) } ∧
    ((e = .unreadable ∧ records = .empty) ∨ ∃ now error, e = .initialized now ∧
      loadInto .empty bad = (.error error, records)) := by
  obtain ⟨⟨op, hrun⟩, hthrew⟩ := h
  have hstep : storeStep { StoreState.fresh bad with
      running := some ⟨⟨c, op⟩, .initializing⟩ } e = some s := by
    have hlast : (storeStep { StoreState.fresh bad with
      running := some ⟨⟨c, op⟩, .initializing⟩ } e).bind some = some s := hrun
    rwa [Option.bind_fun_some] at hlast
  have hh := storeStep_happens hstep
  cases hh with
  | called new => cases hthrew
  | started idle queue => cases idle
  | @operated job now records running ready =>
    -- an operation that decides does not throw
    exfalso
    obtain rfl : (⟨c, op⟩ : Job) = job := congrArg Running.job (Option.some.inj running)
    rcases operate_cases { StoreState.fresh bad with
        running := some ⟨⟨c, op⟩, .initializing⟩, records := records, initialized := true }
        ⟨c, op⟩ now with ⟨answer, -, heq⟩ | ⟨answer, record, -, heq⟩
    · rw [show _ = _ from heq] at hthrew
      simp [StoreState.settle] at hthrew
    · rw [show _ = _ from heq] at hthrew
      cases hthrew
  | @unloaded job now error records running new load =>
    obtain rfl : (⟨c, op⟩ : Job) = job := congrArg Running.job (Option.some.inj running)
    exact ⟨records, rfl, .inr ⟨now, error, rfl, load⟩⟩
  | @unread job running new =>
    obtain rfl : (⟨c, op⟩ : Job) = job := congrArg Running.job (Option.some.inj running)
    exact ⟨.empty, rfl, .inl ⟨rfl, rfl⟩⟩
  | renamed running => cases running
  | written running => cases running
  | failed running persisting =>
    exact absurd (congrArg Running.stage (Option.some.inj running)).symm persisting
  | crashed => cases hthrew

lemma FailedOn.of_load {error : LoadError} (hload : loadInto .empty bad = (.error error, records))
    (op : StoreOp) (now : String) : FailedOn bad c (.initialized now)
      { StoreState.fresh bad with
        records := records
        outcomes := Function.update (fun _ => none) c (some .threw) } := by
  refine ⟨⟨op, ?_⟩, by simp⟩
  simp only [run, storeStep, StoreState.fresh, StoreState.IsNew, StoreState.initializeStore]
  simp [hload, StoreState.settle]

/-! ### Two stores that look the same -/

/-- Two stores that differ in the outcome of one call that is over, and in records that neither of
them will ever use. -/
structure Alike (c : ℕ) (s t : StoreState) : Prop where
  same : t = { s with outcomes := t.outcomes, records := t.records }
  outcomes : ∀ c', c' ≠ c → s.outcomes c' = t.outcomes c'
  queued : ∀ job ∈ s.queue, job.call ≠ c
  busy : ∀ r ∈ s.running, r.job.call ≠ c
  records : s.records = t.records ∨ (s.Unready ∧ Unloadable s.file)

namespace Alike

variable {job : Job} {outcome : Outcome}

lemma look_eq (h : Alike c s t) : s.look c = t.look c := by
  have hfile : s.file = t.file := by rw [h.same]
  refine Prod.ext hfile (funext fun c' => ?_)
  by_cases hc : c' = c
  · simp [StoreState.look, hc]
  · simp [StoreState.look, hc, h.outcomes c' hc]

lemma settle (h : Alike c s t) :
    Alike c (s.settle job outcome) (t.settle job outcome) where
  same := by
    rw [h.same]
    rfl
  outcomes c' hc := by
    simp only [StoreState.settle, Function.update_apply, h.outcomes c' hc]
  queued := h.queued
  busy := by simp [StoreState.settle]
  records := h.records.imp id fun ⟨hunready, hunloadable⟩ =>
    ⟨⟨hunready.1, by simp [StoreState.settle]⟩, hunloadable⟩

lemma isNew_eq (h : Alike c s t) {c' : ℕ} (hc : c' ≠ c) : t.IsNew c' = s.IsNew c' := by
  rw [h.same]
  simp only [StoreState.IsNew, h.outcomes c' hc]

lemma call (h : Alike c s t) {c' : ℕ} (hc : c' ≠ c) (op : StoreOp) :
    Option.Rel (Alike c) (storeStep s (.call c' op)) (storeStep t (.call c' op)) := by
  have hnew := h.isNew_eq hc
  simp only [storeStep, hnew]
  split_ifs with hfree
  · refine .some ⟨?_, h.outcomes, ?_, h.busy, h.records⟩
    · rw [h.same]
    · intro job hjob
      rcases List.mem_append.mp hjob with hold | hlast
      · exact h.queued job hold
      · obtain rfl := List.mem_singleton.mp hlast
        exact hc
  · exact .none

lemma start (h : Alike c s t) :
    Option.Rel (Alike c) (storeStep s .start) (storeStep t .start) := by
  have hrunning : t.running = s.running := by rw [h.same]
  have hqueue : t.queue = s.queue := by rw [h.same]
  simp only [storeStep, hrunning, hqueue]
  cases hr : s.running with
  | some r => exact .none
  | none =>
    cases hq : s.queue with
    | nil => exact .none
    | cons job rest =>
      have hqueued : ∀ job' ∈ job :: rest, job'.call ≠ c := hq ▸ h.queued
      refine .some ⟨by rw [h.same], h.outcomes, ?_, ?_, h.records.imp id ?_⟩
      · exact fun job' hjob => hqueued job' (List.mem_cons_of_mem _ hjob)
      · intro r hr
        obtain rfl := Option.some.inj hr
        exact hqueued job List.mem_cons_self
      · rintro ⟨hunready, hunloadable⟩
        refine ⟨⟨hunready.1, fun job' stage hr => ?_⟩, hunloadable⟩
        exact (congrArg Running.stage (Option.some.inj hr)).symm

/-- With the same records an operation decides the same. -/
lemma operate (h : Alike c s t) (hrecords : s.records = t.records) (hjob : job.call ≠ c)
    (now : String) : Alike c (s.operate job now) (t.operate job now) := by
  unfold StoreState.operate
  rw [← hrecords]
  rcases job.op.decide now s.records with ⟨answer, _ | record⟩
  · exact h.settle
  · refine ⟨by rw [h.same], h.outcomes, h.queued, ?_, .inl rfl⟩
    intro r hr
    obtain rfl := Option.some.inj hr
    exact hjob

lemma initialized (h : Alike c s t) (now : String) :
    Option.Rel (Alike c) (storeStep s (.initialized now)) (storeStep t (.initialized now)) := by
  have hrunning : t.running = s.running := by rw [h.same]
  have hinit : t.initialized = s.initialized := by rw [h.same]
  have hfile : t.file = s.file := by rw [h.same]
  simp only [storeStep, hrunning]
  rcases hr : s.running with _ | ⟨job, _ | _ | _⟩
  · exact .none
  · have hjob : job.call ≠ c := h.busy _ hr
    simp only [StoreState.initializeStore, hinit, hfile]
    rcases h.records with hrecords | ⟨hunready, hunloadable⟩
    · -- the same records are read into the same
      rw [← hrecords]
      split_ifs with hi
      · exact .some (h.operate hrecords hjob now)
      · rcases loadInto s.records s.file with ⟨_ | ⟨⟩, records⟩
        · refine .some (Alike.settle ⟨?_, h.outcomes, h.queued, h.busy, .inl rfl⟩)
          rw [h.same]
        · have hloaded : Alike c { s with records := records, initialized := true }
              { t with file := s.file, records := records, initialized := true } :=
            ⟨by rw [h.same], h.outcomes, h.queued, h.busy, .inl rfl⟩
          exact .some (hloaded.operate rfl hjob now)
    · -- whatever is in memory, the file is not read
      have hleft := hunloadable.error s.records
      have hright := hunloadable.error t.records
      rw [if_neg (by simp [hunready.1]), if_neg (by simp [hunready.1])]
      rcases hs : loadInto s.records s.file with ⟨_ | ⟨⟩, records⟩
      · rcases ht : loadInto t.records s.file with ⟨_ | ⟨⟩, records'⟩
        · refine .some (Alike.settle ⟨?_, h.outcomes, h.queued, h.busy, .inr ⟨?_, hunloadable⟩⟩)
          · rw [h.same]
          · exact ⟨hunready.1, hunready.2⟩
        · rw [ht] at hright
          exact absurd rfl hright
      · rw [hs] at hleft
        exact absurd rfl hleft
  · exact .none
  · exact .none

lemma unreadable (h : Alike c s t) :
    Option.Rel (Alike c) (storeStep s .unreadable) (storeStep t .unreadable) := by
  have hrunning : t.running = s.running := by rw [h.same]
  have hinit : t.initialized = s.initialized := by rw [h.same]
  simp only [storeStep, hrunning, hinit]
  rcases s.running with _ | ⟨job, _ | _ | _⟩
  · exact .none
  · dsimp only
    split_ifs
    · exact .none
    · exact .some h.settle
  · exact .none
  · exact .none

/-- A store that persists has been initialized. -/
lemma records_eq (h : Alike c s t) {stage : Stage} (hr : s.running = some ⟨job, stage⟩)
    (hstage : stage ≠ .initializing) : s.records = t.records := by
  rcases h.records with hrecords | ⟨hunready, -⟩
  · exact hrecords
  · exact absurd (hunready.2 _ _ hr) hstage

lemma renamed (h : Alike c s t) :
    Option.Rel (Alike c) (storeStep s .renamed) (storeStep t .renamed) := by
  have hrunning : t.running = s.running := by rw [h.same]
  simp only [storeStep, hrunning]
  rcases hr : s.running with _ | ⟨job, _ | ⟨now, record, answer⟩ | _⟩
  · exact .none
  · exact .none
  · have hrecords := h.records_eq hr (by simp)
    have hjob : job.call ≠ c := h.busy _ hr
    refine .some ⟨?_, h.outcomes, h.queued, ?_, .inl hrecords⟩
    · rw [h.same, hrecords]
    · intro r hr'
      obtain rfl := Option.some.inj hr'
      exact hjob
  · exact .none

lemma written (h : Alike c s t) :
    Option.Rel (Alike c) (storeStep s .written) (storeStep t .written) := by
  have hrunning : t.running = s.running := by rw [h.same]
  simp only [storeStep, hrunning]
  rcases hr : s.running with _ | ⟨job, _ | _ | ⟨now, record, answer⟩⟩
  · exact .none
  · exact .none
  · exact .none
  · have hrecords := h.records_eq hr (by simp)
    refine .some (Alike.settle ⟨?_, h.outcomes, h.queued, ?_, .inl ?_⟩)
    · rw [h.same]
    · rw [← hr]
      exact h.busy
    · rw [hrecords]

lemma failed (h : Alike c s t) :
    Option.Rel (Alike c) (storeStep s .failed) (storeStep t .failed) := by
  have hrunning : t.running = s.running := by rw [h.same]
  simp only [storeStep, hrunning]
  rcases s.running with _ | ⟨job, _ | _ | _⟩
  · exact .none
  · exact .none
  · exact .some h.settle
  · exact .some h.settle

lemma crash (h : Alike c s t) :
    Option.Rel (Alike c) (storeStep s .crash) (storeStep t .crash) := by
  have hfile : t.file = s.file := by rw [h.same]
  simp only [storeStep, hfile]
  exact .some ⟨rfl, fun _ _ => rfl, by simp [StoreState.fresh], by simp [StoreState.fresh],
    .inl rfl⟩

/-- **Stores that look the same go in step.** -/
lemma step (h : Alike c s t) (he : ∀ op, e ≠ .call c op) :
    Option.Rel (Alike c) (storeStep s e) (storeStep t e) := by
  cases e with
  | call c' op => exact h.call (fun heq => he op (by rw [heq])) op
  | start => exact h.start
  | initialized now => exact h.initialized now
  | unreadable => exact h.unreadable
  | renamed => exact h.renamed
  | written => exact h.written
  | failed => exact h.failed
  | crash => exact h.crash

end Alike

/-! ### What the failure can be told from -/

/-- How the first operation on a store settles at the end of its `initialize`. -/
def firstOutcome (op : StoreOp) (now : String) : Except LoadError Unit × Records → Option Outcome
  | (.ok (), records) =>
    match op.decide now records with
    | (answer, none) => some (.answered answer)
    | (_, some _) => none
  | (.error _, _) => some .threw

lemma outcomes_of_first {c' : ℕ} (op : StoreOp) (now : String) (hidle : s.running = none)
    (hqueue : s.queue = []) (hinit : s.initialized = false) (hnew : s.outcomes c' = none) :
    (run storeStep s [.call c' op, .start, .initialized now]).map (fun t => t.outcomes c') =
      some (firstOutcome op now (loadInto s.records s.file)) := by
  have hfree : s.IsNew c' := by simp [StoreState.IsNew, hidle, hqueue, hnew]
  simp only [run, storeStep, hfree, if_true, Option.bind_some, hidle, hqueue, List.nil_append,
    StoreState.initializeStore, hinit, Bool.false_eq_true, if_false]
  rcases loadInto s.records s.file with ⟨_ | ⟨⟩, records⟩
  · simp [StoreState.settle, firstOutcome]
  · dsimp only
    rcases operate_cases { s with
        records := records, initialized := true, queue := []
        running := some ⟨⟨c', op⟩, .initializing⟩ } ⟨c', op⟩ now with
      ⟨answer, hdec, heq⟩ | ⟨answer, record, hdec, heq⟩
    · rw [heq]
      simp only [StoreState.settle, firstOutcome, Option.bind_some, Option.map_some] at hdec ⊢
      simp [hdec]
    · rw [heq]
      simp only [firstOutcome, Option.bind_some, Option.map_some] at hdec ⊢
      simp [hdec, hnew]

/-- A request for a sidecar that is not the one of any record with this name. -/
def strangeRequest (r : AllocationRecord) : StoreOp :=
  .observeEnsure ⟨r.allocationId, r.sidecarId ++ "x", 0⟩

lemma firstOutcome_ne_threw (op : StoreOp) (now : String) (records : Records) :
    firstOutcome op now (.ok (), records) ≠ some .threw := by
  rw [firstOutcome]
  split <;> simp

lemma firstOutcome_of_missing {r : AllocationRecord} (now : String)
    (h : records.get r.allocationId = none) :
    firstOutcome (strangeRequest r) now (.ok (), records) = none := by
  simp [firstOutcome, strangeRequest, StoreOp.decide, observeEnsure, h]

lemma firstOutcome_of_present {r : AllocationRecord} (now : String)
    (h : records.get r.allocationId = some r) :
    firstOutcome (strangeRequest r) now (.ok (), records) ≠ none := by
  have hne : r.sidecarId ≠ r.sidecarId ++ "x" := by
    intro heq
    have hlen := congrArg String.length heq
    simp [String.length_append] at hlen
  simp [firstOutcome, strangeRequest, StoreOp.decide, observeEnsure, h, hne, requestConflict]

/-- **A record that is left is noticed** on every file that a fresh store reads. -/
lemma firstOutcome_ne {r : AllocationRecord} {now : String} (hload : ¬ Unloadable repaired)
    (hget : records.get r.allocationId = some r) :
    firstOutcome (strangeRequest r) now (loadInto records repaired) ≠
      firstOutcome (strangeRequest r) now (loadInto .empty repaired) := by
  obtain ⟨m, hloads⟩ : ∃ m, Loads repaired m := by
    by_contra hnone
    exact hload fun m hm => hnone ⟨m, hm⟩
  rw [hloads]
  rcases loadInto_cases repaired with ⟨loaded, hadd⟩ | ⟨error, -, hadd⟩
  · have hm : (addRecords .empty loaded) = (.ok (), m) := (hadd .empty).symm.trans hloads
    rw [hadd records]
    by_cases hin : (m.get r.allocationId).isSome
    · -- the repaired file has the allocation, and is taken for a duplicate
      obtain ⟨r', hr'⟩ := Option.isSome_iff_exists.mp hin
      have hread : ∃ r' ∈ loaded, r'.allocationId = r.allocationId := by
        refine (mem_of_addRecords (m := .empty) (r := r') ?_).resolve_left (by simp)
        rw [hm]
        exact hr'
      obtain ⟨r', hr', hkey⟩ := hread
      have herror : (addRecords records loaded).1 ≠ .ok () :=
        addRecords_error_of_mem ⟨r', hr', by rw [hkey, hget]; rfl⟩
      rcases hd : addRecords records loaded with ⟨_ | ⟨⟩, after⟩
      · exact (firstOutcome_ne_threw _ _ _).symm
      · rw [hd] at herror
        exact absurd rfl herror
    · -- it has not, and a fresh store would make a new record
      rw [Option.not_isSome_iff_eq_none] at hin
      rw [firstOutcome_of_missing now hin]
      have hkeeps : (addRecords records loaded).2.get r.allocationId = some r :=
        addRecords_keeps hget
      rcases hd : addRecords records loaded with ⟨_ | ⟨⟩, after⟩
      · simp [firstOutcome]
      · rw [hd] at hkeeps
        exact firstOutcome_of_present now hkeeps
  · rw [Loads, hadd] at hloads
    simp at hloads

/-- A state file with these records, as `persist` lays it out. -/
def stateFileWith (l : List AllocationRecord) : String :=
  String.ofList (Json.write stateNumerals 0 (.object [("version", .number (.integer 1)),
    ("records", .array (l.map recordJson))]) ++ ['\n'])

lemma loadInto_stateFileWith {l : List AllocationRecord} (hl : ∀ r ∈ l, r.Valid) (m : Records) :
    loadInto m (some (stateFileWith l)) = addRecords m l := by
  have hparse : Json.parse stateNumerals (stateFileWith l).toList =
      some (.object [("version", .number (.integer 1)),
        ("records", .array (l.map recordJson))]) := by
    rw [stateFileWith, String.toList_ofList]
    refine Json.parse_write ⟨reads_natural 1, reads_recordsJson l, trivial⟩ ?_
    simp [Json.isWhitespace]
  have hread : stateFileOf (.object [("version", .number (.integer 1)),
      ("records", .array (l.map recordJson))]) = some l := by
    simpa [stateFileOf, Json.member] using mapM_recordJson hl
  simp only [loadInto, hparse, hread]

/-- The record of allocation `a`. -/
def recordOfA : AllocationRecord := ⟨"a", "s", 0, .ensured, none, "t"⟩

/-- A file that is cut short. -/
lemma loadInto_cut (m : Records) : loadInto m (some "\x7b") = (.error .invalidJson, m) := rfl

end Workbench.Provisioner
