import Workbench.Lib.Transition
import Workbench.Provisioner.StateFile

/-!
The allocation state store: operations one behind the other, the file they are persisted to, and
a hub that can crash.

`runExclusive` starts an operation when the one before it has settled, however it did. An
operation that has a record to persist writes all records to a temporary file and renames it; the
records in memory follow when the write has succeeded. A write can fail before the rename or
after it, and the rename replaces the file as a whole.
-/

namespace Workbench.Provisioner

open Workbench.Lib Workbench.Lib.Transition

/-- A call of one of the three operations. -/
structure Job where
  call : ℕ
  op : StoreOp
  deriving DecidableEq, Repr

inductive Stage
  /-- in `initialize` -/
  | initializing
  /-- in `persist`, before the rename -/
  | writing (now : String) (record : AllocationRecord) (answer : StoreAnswer)
  /-- after it -/
  | renamed (now : String) (record : AllocationRecord) (answer : StoreAnswer)
  deriving DecidableEq, Repr

structure Running where
  job : Job
  stage : Stage
  deriving DecidableEq, Repr

/-- How the promise of an operation settles. -/
inductive Outcome
  | answered (answer : StoreAnswer)
  | threw
  deriving DecidableEq, Repr

structure StoreState where
  file : Option String
  records : Records
  initialized : Bool
  queue : List Job
  running : Option Running
  outcomes : ℕ → Option Outcome

inductive StoreEvent
  | call (c : ℕ) (op : StoreOp)
  /-- the operation at the head of the queue starts -/
  | start
  /-- `initialize` settles, and the operation decides at this time -/
  | initialized (now : String)
  /-- `initialize` cannot read the file -/
  | unreadable
  | renamed
  /-- `writeFileAtomic` succeeds -/
  | written
  /-- `writeFileAtomic` fails -/
  | failed
  | crash
  deriving DecidableEq, Repr

namespace StoreState

/-- A store of a hub that has just started. -/
def fresh (file : Option String) : StoreState where
  file := file
  records := .empty
  initialized := false
  queue := []
  running := none
  outcomes := fun _ => none

def settle (s : StoreState) (job : Job) (outcome : Outcome) : StoreState :=
  { s with running := none, outcomes := Function.update s.outcomes job.call (some outcome) }

/-- `initialize`. -/
def initializeStore (s : StoreState) : Except LoadError Unit × StoreState :=
  if s.initialized then (.ok (), s)
  else
    match loadInto s.records s.file with
    | (.ok (), records) => (.ok (), { s with records := records, initialized := true })
    | (.error error, records) => (.error error, { s with records := records })

/-- An operation after `initialize`: it answers, or persists a record first. -/
def operate (s : StoreState) (job : Job) (now : String) : StoreState :=
  match job.op.decide now s.records with
  | (answer, none) => s.settle job (.answered answer)
  | (answer, some record) => { s with running := some ⟨job, .writing now record answer⟩ }

/-- A call that has not been made. -/
def IsNew (s : StoreState) (c : ℕ) : Bool :=
  (s.outcomes c).isNone && s.queue.all (·.call ≠ c) && s.running.all (·.job.call ≠ c)

end StoreState

def storeStep (s : StoreState) : StoreEvent → Option StoreState
  | .call c op => if s.IsNew c then some { s with queue := s.queue ++ [⟨c, op⟩] } else none
  | .start =>
    match s.running, s.queue with
    | none, job :: rest => some { s with running := some ⟨job, .initializing⟩, queue := rest }
    | _, _ => none
  | .initialized now =>
    match s.running with
    | some ⟨job, .initializing⟩ =>
      match s.initializeStore with
      | (.ok (), s') => some (s'.operate job now)
      | (.error _, s') => some (s'.settle job .threw)
    | _ => none
  | .unreadable =>
    match s.running with
    | some ⟨job, .initializing⟩ => if s.initialized then none else some (s.settle job .threw)
    | _ => none
  | .renamed =>
    match s.running with
    | some ⟨job, .writing now record answer⟩ =>
      some { s with
        file := some (contents (s.records.put record))
        running := some ⟨job, .renamed now record answer⟩ }
    | _ => none
  | .written =>
    match s.running with
    | some ⟨job, .renamed _ record answer⟩ =>
      some ({ s with records := s.records.put record }.settle job (.answered answer))
    | _ => none
  | .failed =>
    match s.running with
    | some ⟨job, .writing ..⟩ | some ⟨job, .renamed ..⟩ => some (s.settle job .threw)
    | _ => none
  | .crash => some (.fresh s.file)

/-! ### What a step can do -/

/-- The steps of the store, one constructor for each branch. -/
inductive StoreHappens (s : StoreState) : StoreEvent → StoreState → Prop
  | called {c op} (new : s.IsNew c) :
    StoreHappens s (.call c op) { s with queue := s.queue ++ [⟨c, op⟩] }
  | started {job rest} (idle : s.running = none) (queue : s.queue = job :: rest) :
    StoreHappens s .start { s with running := some ⟨job, .initializing⟩, queue := rest }
  | operated {job now records} (running : s.running = some ⟨job, .initializing⟩)
    (ready : (s.initialized ∧ records = s.records) ∨
      (s.initialized = false ∧ loadInto s.records s.file = (.ok (), records))) :
    StoreHappens s (.initialized now)
      ({ s with records := records, initialized := true }.operate job now)
  | unloaded {job now error records} (running : s.running = some ⟨job, .initializing⟩)
    (new : s.initialized = false) (load : loadInto s.records s.file = (.error error, records)) :
    StoreHappens s (.initialized now) ({ s with records := records }.settle job .threw)
  | unread {job} (running : s.running = some ⟨job, .initializing⟩) (new : s.initialized = false) :
    StoreHappens s .unreadable (s.settle job .threw)
  | renamed {job now record answer} (running : s.running = some ⟨job, .writing now record answer⟩) :
    StoreHappens s .renamed { s with
      file := some (contents (s.records.put record))
      running := some ⟨job, .renamed now record answer⟩ }
  | written {job now record answer} (running : s.running = some ⟨job, .renamed now record answer⟩) :
    StoreHappens s .written
      ({ s with records := s.records.put record }.settle job (.answered answer))
  | failed {job stage} (running : s.running = some ⟨job, stage⟩)
    (persisting : stage ≠ .initializing) :
    StoreHappens s .failed (s.settle job .threw)
  | crashed : StoreHappens s .crash (.fresh s.file)

variable {s t u : StoreState} {e : StoreEvent} {c : ℕ}

/-- **Every step is one of these.** -/
theorem storeStep_happens (h : storeStep s e = some t) : StoreHappens s e t := by
  cases e with
  | call c op =>
    simp only [storeStep] at h
    split_ifs at h with hn
    obtain rfl := Option.some.inj h
    exact .called hn
  | start =>
    simp only [storeStep] at h
    split at h
    · rename_i job rest hr hq
      obtain rfl := Option.some.inj h
      exact .started hr hq
    · simp at h
  | initialized now =>
    simp only [storeStep] at h
    split at h
    · rename_i job hr
      simp only [StoreState.initializeStore] at h
      split_ifs at h with hi
      · obtain rfl := Option.some.inj h
        have := @StoreHappens.operated s _ now _ hr (.inl ⟨hi, rfl⟩)
        simpa [← hi] using this
      · have hi : s.initialized = false := by simpa using hi
        split at h
        · rename_i hload
          split at hload
          · rename_i records hl
            obtain ⟨-, rfl⟩ := Prod.mk.inj hload
            obtain rfl := Option.some.inj h
            exact .operated hr (.inr ⟨hi, hl⟩)
          · simp at hload
        · rename_i hload
          split at hload
          · simp at hload
          · rename_i error records hl
            obtain ⟨-, rfl⟩ := Prod.mk.inj hload
            obtain rfl := Option.some.inj h
            exact .unloaded hr hi hl
    · simp at h
  | unreadable =>
    simp only [storeStep] at h
    split at h
    · rename_i job hr
      split_ifs at h with hi
      obtain rfl := Option.some.inj h
      exact .unread hr (by simpa using hi)
    · simp at h
  | renamed =>
    simp only [storeStep] at h
    split at h
    · rename_i hr
      obtain rfl := Option.some.inj h
      exact .renamed hr
    · simp at h
  | written =>
    simp only [storeStep] at h
    split at h
    · rename_i hr
      obtain rfl := Option.some.inj h
      exact .written hr
    · simp at h
  | failed =>
    simp only [storeStep] at h
    split at h
    · rename_i hr
      obtain rfl := Option.some.inj h
      exact .failed hr (by simp)
    · rename_i hr
      obtain rfl := Option.some.inj h
      exact .failed hr (by simp)
    · simp at h
  | crash =>
    obtain rfl := Option.some.inj h
    exact .crashed

/-- What an operation does after `initialize`. -/
lemma operate_cases (s : StoreState) (job : Job) (now : String) :
    (∃ answer, job.op.decide now s.records = (answer, none) ∧
      s.operate job now = s.settle job (.answered answer)) ∨
    ∃ answer record, job.op.decide now s.records = (answer, some record) ∧
      s.operate job now = { s with running := some ⟨job, .writing now record answer⟩ } := by
  unfold StoreState.operate
  rcases h : job.op.decide now s.records with ⟨answer, _ | record⟩
  · exact .inl ⟨answer, rfl, rfl⟩
  · exact .inr ⟨answer, record, rfl, rfl⟩

/-! ### The operations of an initialized store -/

/-- No hub crashes. -/
def uncrashed (_ : StoreState) (e : StoreEvent) : Prop := e ≠ .crash

/-- The store has been initialized, and the operation that persists a record has decided on the
records in memory. -/
structure StoreState.Ready (s : StoreState) : Prop where
  initialized : s.initialized
  decided : ∀ job now record answer, s.running = some ⟨job, .writing now record answer⟩ ∨
    s.running = some ⟨job, .renamed now record answer⟩ →
      job.op.decide now s.records = (answer, some record)

/-- Nothing runs in an initialized store. -/
lemma StoreState.ready_of_idle (hi : s.initialized) (hr : s.running = none) : s.Ready where
  initialized := hi
  decided job now record answer h := by simp [hr] at h

/-- **One step of an initialized store** leaves the records, or makes them those of the operation
that is answered. -/
lemma StoreState.Ready.step (hs : s.Ready) (he : e ≠ .crash) (h : StoreHappens s e t) :
    t.Ready ∧ (t.records = s.records ∨ ∃ job now answer, s.running.map Running.job = some job ∧
      t.outcomes job.call = some (.answered answer) ∧
      answer = (job.op.decide now s.records).1 ∧ t.records = job.op.apply now s.records) := by
  obtain ⟨hi, hd⟩ := hs
  have settled : ∀ {s' : StoreState} {job outcome}, s'.initialized →
      (s'.settle job outcome).Ready :=
    fun h => StoreState.ready_of_idle h rfl
  cases h with
  | called new => exact ⟨⟨hi, hd⟩, .inl rfl⟩
  | started idle queue => exact ⟨⟨hi, by simp⟩, .inl rfl⟩
  | @operated job now records running ready =>
    obtain ⟨-, rfl⟩ : s.initialized ∧ records = s.records := by
      rcases ready with ready | ⟨hi', -⟩
      · exact ready
      · simp [hi] at hi'
    rcases operate_cases { s with initialized := true } job now with
      ⟨answer, hdec, heq⟩ | ⟨answer, record, hdec, heq⟩ <;> rw [heq]
    · exact ⟨settled rfl, .inl rfl⟩
    · refine ⟨⟨rfl, ?_⟩, .inl rfl⟩
      rintro job' now' record' answer' (h | h)
      · obtain ⟨rfl, rfl, rfl, rfl⟩ := by simpa using h
        exact hdec
      · simp at h
  | unloaded running new => simp [hi] at new
  | unread running new => simp [hi] at new
  | @renamed job now record answer running =>
    refine ⟨⟨hi, ?_⟩, .inl rfl⟩
    rintro job' now' record' answer' (h | h)
    · simp at h
    · obtain ⟨rfl, rfl, rfl, rfl⟩ := by simpa using h
      exact hd _ _ _ _ (.inl running)
  | @written job now record answer running =>
    have hdec := hd _ _ _ _ (.inr running)
    refine ⟨settled hi, .inr ⟨job, now, answer, by simp [running], ?_, by rw [hdec], ?_⟩⟩
    · simp [StoreState.settle]
    · simp [StoreState.settle, StoreOp.apply, hdec]
  | failed running persisting => exact ⟨settled hi, .inl rfl⟩
  | crashed => exact absurd rfl he

/-- Before it is initialized, a store persists nothing. -/
def StoreState.Unready (s : StoreState) : Prop :=
  s.initialized = false ∧ ∀ job stage, s.running = some ⟨job, stage⟩ → stage = .initializing

lemma StoreState.unready_fresh (file : Option String) : (fresh file).Unready :=
  ⟨rfl, fun job stage h => by simp [fresh] at h⟩

/-- A store becomes ready with the operation that initializes it. -/
lemma StoreState.Unready.step (hs : s.Unready) (h : StoreHappens s e t) : t.Ready ∨ t.Unready := by
  obtain ⟨hi, hr⟩ := hs
  have settled : ∀ {s' : StoreState} {job outcome}, s'.initialized = false →
      (s'.settle job outcome).Unready :=
    fun h => ⟨h, fun job stage h => by simp [StoreState.settle] at h⟩
  cases h with
  | called new => exact .inr ⟨hi, hr⟩
  | started idle queue =>
    refine .inr ⟨hi, fun job stage h => ?_⟩
    simp only [Option.some.injEq, Running.mk.injEq] at h
    exact h.2.symm
  | @operated job now records running ready =>
    refine .inl ?_
    rcases operate_cases { s with records := records, initialized := true } job now with
      ⟨answer, hdec, heq⟩ | ⟨answer, record, hdec, heq⟩ <;> rw [heq]
    · exact StoreState.ready_of_idle rfl rfl
    · refine ⟨rfl, ?_⟩
      rintro job' now' record' answer' (h | h)
      · obtain ⟨rfl, rfl, rfl, rfl⟩ := by simpa using h
        exact hdec
      · simp at h
  | unloaded running new load => exact .inr (settled hi)
  | unread running new => exact .inr (settled hi)
  | renamed running => exact absurd (hr _ _ running) (by simp)
  | written running => exact absurd (hr _ _ running) (by simp)
  | failed running persisting => exact absurd (hr _ _ running) persisting
  | crashed => exact .inr (unready_fresh _)

/-- **An initialized store is ready**, in every state a hub can bring it to. -/
lemma StoreState.ready_of_reach {file : Option String} (h : Reach storeStep anyStep (fresh file) s)
    (hi : s.initialized) : s.Ready := by
  have hinv : s.Ready ∨ s.Unready := by
    refine h.invariant (I := fun s => s.Ready ∨ s.Unready) (.inr (unready_fresh file)) ?_
    rintro t e u (ht | ht) - hst
    · by_cases he : e = .crash
      · subst he
        obtain rfl := Option.some.inj hst
        exact .inr (unready_fresh _)
      · exact .inl (ht.step he (storeStep_happens hst)).1
    · exact ht.step (storeStep_happens hst)
  rcases hinv with h | h
  · exact h
  · simp [h.1] at hi

lemma StoreState.Ready.evolves (hs : s.Ready) (h : Reach storeStep uncrashed s t) :
    Evolves s.records t.records := by
  refine (h.invariant (I := fun t => t.Ready ∧ Evolves s.records t.records) ⟨hs, .refl _⟩ ?_).2
  rintro t e u ⟨ht, hev⟩ he hst
  obtain ⟨hu, h | ⟨job, now, answer, -, -, -, h⟩⟩ := ht.step he (storeStep_happens hst) <;>
    refine ⟨hu, hev.trans ?_⟩ <;> rw [h]
  · exact .refl _
  · exact evolves_apply now _ job.op

/-- An answer that turns a request down. -/
def StoreAnswer.isRejection : StoreAnswer → Bool
  | .observed (.rejected ..) | .recorded false => true
  | _ => false

/-- An operation that throws, or turns its request down. -/
def Outcome.isRejection : Outcome → Bool
  | .answered answer => answer.isRejection
  | .threw => true

/-- What turns a request down persists no record. -/
lemma not_isRejection_of_decide {op : StoreOp} {now : String} {m : Records} {answer : StoreAnswer}
    {record : AllocationRecord} (h : op.decide now m = (answer, some record)) :
    answer.isRejection = false := by
  cases op with
  | observeEnsure args =>
    have hs := observeEnsure_spec now m args
    simp only [StoreOp.decide] at h
    generalize observeEnsure now m args = d at h hs
    cases hs <;> simp at h
    rw [← h.1]
    rfl
  | observeDestroy args =>
    have hs := observeDestroy_spec now m args
    simp only [StoreOp.decide] at h
    generalize observeDestroy now m args = d at h hs
    cases hs <;> simp at h
    rw [← h.1]
    rfl
  | recordUnit args =>
    have hs := recordUnit_spec now m args
    simp only [StoreOp.decide] at h
    generalize recordUnit now m args = d at h hs
    cases hs <;> simp at h
    rw [← h.1]
    rfl

/-- `recordUnit` succeeds on the ensured record of the very generation. -/
lemma recordUnit_true {args : RecordUnitArgs} {now : String} {m : Records}
    (h : ((StoreOp.recordUnit args).decide now m).1 = .recorded true) :
    ∃ r, m.get args.allocationId = some r ∧ r.generation = args.generation ∧
      r.desiredState = .ensured := by
  have hs := recordUnit_spec now m args
  simp only [StoreOp.decide] at h
  generalize recordUnit now m args = d at h hs
  cases hs with
  | no => simp at h
  | yes r get generation state => exact ⟨r, get, generation, state⟩

/-- The call runs, and the hub does not crash. -/
def Runs (c : ℕ) (s : StoreState) (e : StoreEvent) : Prop :=
  (∃ op stage, s.running = some ⟨⟨c, op⟩, stage⟩) ∧ e ≠ .crash

/-- A step of a running operation that does not settle it leaves the records; the step that
settles it changes them when it answers with a record persisted. -/
lemma StoreState.Ready.running_step {op : StoreOp} {stage : Stage} (hs : s.Ready) (he : e ≠ .crash)
    (hr : s.running = some ⟨⟨c, op⟩, stage⟩) (hc : s.outcomes c = none)
    (h : StoreHappens s e t) :
    (t.records = s.records ∧ t.outcomes c = none ∧ ∃ stage', t.running = some ⟨⟨c, op⟩, stage'⟩) ∨
    (t.running = none ∧ t.records = s.records ∧ t.outcomes c = some .threw) ∨
    (t.running = none ∧ ∃ now, t.outcomes c = some (.answered (op.decide now s.records).1) ∧
      (t.records = s.records ∨ (op.decide now s.records).1.isRejection = false)) := by
  cases h with
  | called new => exact .inl ⟨rfl, hc, stage, hr⟩
  | started idle queue => simp [hr] at idle
  | @operated job now records running ready =>
    obtain ⟨rfl, rfl⟩ := by simpa [hr] using running
    obtain rfl : records = s.records := by
      rcases ready with ⟨-, h⟩ | ⟨h, -⟩
      · exact h
      · simp [hs.initialized] at h
    rcases operate_cases { s with initialized := true } ⟨c, op⟩ now with
      ⟨answer, hdec, heq⟩ | ⟨answer, record, hdec, heq⟩ <;> rw [heq]
    · have hdec : op.decide now s.records = (answer, none) := hdec
      exact .inr (.inr ⟨rfl, now, by simp [StoreState.settle, hdec], .inl rfl⟩)
    · exact .inl ⟨rfl, hc, _, rfl⟩
  | unloaded running new => simp [hs.initialized] at new
  | unread running new => simp [hs.initialized] at new
  | renamed running =>
    obtain ⟨rfl, rfl⟩ := by simpa [hr] using running
    exact .inl ⟨rfl, hc, _, rfl⟩
  | @written job now record answer running =>
    obtain ⟨rfl, rfl⟩ := by simpa [hr] using running
    have hdec : op.decide now s.records = (answer, some record) := hs.decided _ _ _ _ (.inr hr)
    refine .inr (.inr ⟨rfl, now, by simp [StoreState.settle, hdec], .inr ?_⟩)
    rw [hdec]
    exact not_isRejection_of_decide hdec
  | @failed job stage' running persisting =>
    obtain ⟨rfl, rfl⟩ := by simpa [hr] using running
    exact .inr (.inl ⟨rfl, rfl, by simp [StoreState.settle]⟩)
  | crashed => exact absurd rfl he

/-- **What an initialized store keeps**, whichever of its writes fail: from any state on records
only move forward; `recordUnit` succeeds on the ensured record of the very generation; and an
operation that rejects leaves the records as they were while it ran. -/
theorem store_keeps {file : Option String} (h : Reach storeStep anyStep (.fresh file) t)
    (hi : t.initialized) :
    (∀ u, Reach storeStep uncrashed t u → Evolves t.records u.records) ∧
    (∀ e u c args stage, storeStep t e = some u →
      t.running = some ⟨⟨c, .recordUnit args⟩, stage⟩ → t.outcomes c = none →
      u.outcomes c = some (.answered (.recorded true)) →
        ∃ r, t.records.get args.allocationId = some r ∧ r.generation = args.generation ∧
          r.desiredState = .ensured) ∧
    ∀ u c op stage outcome, t.running = some ⟨⟨c, op⟩, stage⟩ → t.outcomes c = none →
      Reach storeStep (Runs c) t u → u.outcomes c = some outcome → outcome.isRejection →
        u.records = t.records := by
  have ht : t.Ready := StoreState.ready_of_reach h hi
  refine ⟨fun u hu => ht.evolves hu, ?_, ?_⟩
  · intro e u c args stage hst hrun hnone hout
    have hh := storeStep_happens hst
    have he : e ≠ .crash := by
      rintro rfl
      cases hh
      simp [StoreState.fresh] at hout
    rcases ht.running_step he hrun hnone hh with ⟨-, h', -⟩ | ⟨-, -, h'⟩ | ⟨-, now, h', -⟩
    · simp [hout] at h'
    · simp [hout] at h'
    · rw [hout, Option.some.injEq, Outcome.answered.injEq] at h'
      exact recordUnit_true h'.symm
  · intro u c op stage outcome hrun hnone hu hout hrej
    -- as long as it runs it has no outcome; when it has one it has settled and runs no more
    have hinv : u.Ready ∧ ((u.records = t.records ∧ u.outcomes c = none ∧
          ∃ stage, u.running = some ⟨⟨c, op⟩, stage⟩) ∨
        (u.running = none ∧ ∃ o, u.outcomes c = some o ∧
          (o.isRejection → u.records = t.records))) := by
      refine hu.invariant (I := fun u => u.Ready ∧ ((u.records = t.records ∧ u.outcomes c = none ∧
        ∃ stage, u.running = some ⟨⟨c, op⟩, stage⟩) ∨ (u.running = none ∧ ∃ o,
          u.outcomes c = some o ∧ (o.isRejection → u.records = t.records))))
        ⟨ht, .inl ⟨rfl, hnone, stage, hrun⟩⟩ ?_
      rintro u e v ⟨hu, hI⟩ ⟨⟨op', stage', hrun'⟩, he⟩ hst
      have hh := storeStep_happens hst
      refine ⟨(hu.step he hh).1, ?_⟩
      rcases hI with ⟨hrec, hnone, stage, hrun⟩ | ⟨hidle, -⟩
      · rcases hu.running_step he hrun hnone hh with
          ⟨h', hn, hs'⟩ | ⟨hv, h', ho⟩ | ⟨hv, now, ho, h'⟩
        · exact .inl ⟨h'.trans hrec, hn, hs'⟩
        · exact .inr ⟨hv, _, ho, fun _ => h'.trans hrec⟩
        · refine .inr ⟨hv, _, ho, fun hr => ?_⟩
          rcases h' with h' | h'
          · exact h'.trans hrec
          · simp [Outcome.isRejection, h'] at hr
      · simp [hidle] at hrun'
    obtain ⟨-, ⟨-, hn, -⟩ | ⟨-, o, ho, hrec⟩⟩ := hinv
    · simp [hout] at hn
    · obtain rfl := Option.some.inj (hout.symm.trans ho)
      exact hrec hrej

/-- A store with an ensured record, in which a unit is about to be recorded. -/
def recordingUnit : List StoreEvent :=
  [.call 0 (.observeEnsure ⟨"a", "sidecar", 1⟩), .start, .initialized "t0", .renamed, .written,
    .call 1 (.recordUnit ⟨"a", 1, "a:1:7"⟩), .start, .initialized "t1", .renamed]

/-- The unit is recorded on the ensured record of generation 1. -/
theorem store_keeps_recordUnit : ∃ t u, storeStep t .written = some u ∧
    u.outcomes 1 = some (.answered (.recorded true)) ∧
    ∃ r, t.records.get "a" = some r ∧ r.generation = 1 ∧ r.desiredState = .ensured := by
  have hr : Reach storeStep anyStep (.fresh none) _ :=
    reach_of_run (rfl : run storeStep _ recordingUnit = some _)
  exact ⟨_, _, rfl, rfl, (store_keeps hr rfl).2.1 .written _ 1 _ _ rfl rfl rfl rfl⟩

end Workbench.Provisioner
