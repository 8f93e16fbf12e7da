import Workbench.Workflow.Schedule
import Workbench.Workflow.Takes

/-!
Skipping a branch while the run goes on.

The steps that are skipped are started and completed one after the other, and events of other steps
come in between. The scheduler is not to start any of them in the meantime. It does not as long as a
step is completed when those that come after it are.
-/

namespace Workbench.Workflow

open Workbench.Lib Workbench.Lib.Replay

variable {π : Type} {d : WorkflowDefinition} {steps : Steps} {unitId id : String}
  {toSkip inFlight : List String} {ref : String → String} {snapshot s t : RunState π}
  {log : List (WorkflowEvent π)} {body : EventBody π} {seq : ℤ}

/-- What is committed for a step that is skipped. -/
def skipEvents (snapshot : RunState π) (ref : String → String) (skipId : String) :
    List (EventBody π) :=
  match (snapshot.steps.get skipId).map StepState.phase with
  | none => [.stepStarted skipId 1, .stepCompleted skipId (ref skipId)]
  | some .inFlight => [.stepCompleted skipId (ref skipId)]
  | some _ => []

/-- What is committed for the steps that are skipped, unless the run is aborted and not running. -/
def emitSkipClosure (steps : Steps) (snapshot : RunState π) (toSkip : List String)
    (ref : String → String) (aborted : Bool) : List (EventBody π) :=
  if aborted ∧ snapshot.phase ≠ .running then []
  else (leafFirstOrder steps toSkip).flatMap (skipEvents snapshot ref)

/-- The step whose state an event is about. -/
def EventBody.named : EventBody π → Option String
  | stepStarted stepId _ | stepCompleted stepId _ | stepFailed stepId _ _
  | attemptScheduled stepId _ _ | signalAwaited stepId _ _ _ _ | signalAwaitAbandoned stepId _ _
  | cancelPropagated stepId => some stepId
  | timerSet _ _ stepId => stepId
  | _ => none

def EventBody.settles (stepId : String) : EventBody π → Bool
  | stepCompleted id _ | stepFailed id _ _ | cancelPropagated id => id = stepId
  | _ => false

/-- The events about steps that are skipped. -/
def touching (toSkip : List String) (log : List (WorkflowEvent π)) : List (EventBody π) :=
  (log.map WorkflowEvent.body).filter fun body => body.named.any (· ∈ toSkip)

/-- Every step that is skipped comes after the unit or after another that is. -/
def HangsFrom (steps : Steps) (unitId : String) (toSkip : List String) : Prop :=
  ∀ id ∈ toSkip, id ∈ followers steps unitId ∨ ∃ dep ∈ toSkip, id ∈ followers steps dep

/-- No step that is skipped waits for anything, and none is settled before those that come after
it. -/
structure LeafFirst (steps : Steps) (toSkip : List String) (s : RunState π) : Prop where
  moving : ∀ id ∈ toSkip, ∀ step ∈ s.steps.get id,
    step.phase = .inFlight ∨ isTerminalStepPhase step.phase
  leaves : ∀ id ∈ toSkip, isSettled s id → ∀ later ∈ toSkip, later ∈ followers steps id →
    isSettled s later

/-! ### One event -/

lemma get_of_takes_unnamed (h : Takes s seq body t) (hnamed : body.named ≠ some id)
    (hmoving : ∀ step ∈ s.steps.get id, step.phase = .inFlight ∨ isTerminalStepPhase step.phase) :
    t.steps.get id = s.steps.get id := by
  cases h <;> grind [EventBody.named, awaitsOn, isTerminalStepPhase]

lemma isSettled_of_takes (h : Takes s seq body t) (hopen : isSettled s id = false)
    (hsettles : body.settles id = false) : isSettled t id = false := by
  unfold isSettled at hopen ⊢
  cases h <;> grind [EventBody.settles, StepState.inFlight, isTerminalStepPhase]

lemma started_of_takes {attempt : ℤ} (h : Takes s seq (.stepStarted id attempt) t) :
    s.steps.get id = none ∧ ∃ step, t.steps.get id = some step ∧ step.phase = .inFlight := by
  cases h with
  | stepStarted _ hnew => exact ⟨hnew, _, OrderedMap.get_set_self, rfl⟩

lemma completed_of_takes {outputRef : String} (h : Takes s seq (.stepCompleted id outputRef) t) :
    ∃ step, t.steps.get id = some step ∧ step.phase = .completed := by
  cases h with
  | stepCompleted _ _ => exact ⟨_, OrderedMap.get_set_self, rfl⟩

/-! ### A run -/

variable {e : WorkflowEvent π} {aborted : Bool}

lemma touching_concat : touching toSkip (log ++ [e]) =
    touching toSkip log ++ if e.body.named.any (· ∈ toSkip) then [e.body] else [] := by
  simp only [touching, List.map_append, List.filter_append, List.map_cons, List.map_nil]
  split_ifs with h <;> simp [h]

/-- What is committed for skipped steps starts or completes one of them. -/
lemma mem_emitSkipClosure (h : body ∈ emitSkipClosure steps snapshot toSkip ref aborted) :
    ∃ id, body = .stepStarted id 1 ∨ body = .stepCompleted id (ref id) := by
  unfold emitSkipClosure at h
  split_ifs at h
  · cases h
  · obtain ⟨id, -, hid⟩ := List.mem_flatMap.mp h
    unfold skipEvents at hid
    split at hid <;> simp at hid
    · exact ⟨id, hid⟩
    · exact ⟨id, .inr hid⟩

/-- Where a run stands while steps are skipped. -/
structure Skipping (toSkip : List String) (ref : String → String) (unitId : String)
    (snapshot : RunState π) (log : List (WorkflowEvent π)) (s : RunState π) : Prop where
  unit : isSettled s unitId = false
  moving : ∀ id ∈ toSkip, ∀ step ∈ s.steps.get id,
    step.phase = .inFlight ∨ isTerminalStepPhase step.phase
  settled : ∀ id ∈ toSkip, isSettled s id ↔
    isSettled snapshot id ∨ EventBody.stepCompleted id (ref id) ∈ touching toSkip log

lemma Skipping.step (hs : Skipping toSkip ref unitId snapshot log s) (h : Takes s seq e.body t)
    (hemitted : e.body.named.any (· ∈ toSkip) →
      ∃ id, e.body = .stepStarted id 1 ∨ e.body = .stepCompleted id (ref id))
    (hsettles : e.body.settles unitId = false) :
    Skipping toSkip ref unitId snapshot (log ++ [e]) t := by
  have hother : ∀ id ∈ toSkip, e.body.named ≠ some id → t.steps.get id = s.steps.get id :=
    fun id hid hnamed => get_of_takes_unnamed h hnamed (hs.moving id hid)
  have hown : ∀ id ∈ toSkip, e.body.named = some id →
      e.body = .stepStarted id 1 ∨ e.body = .stepCompleted id (ref id) := by
    intro id hid hnamed
    obtain ⟨id', hbody⟩ := hemitted (by simp [hnamed, hid])
    have hid' : e.body.named = some id' := by rcases hbody with hbody | hbody <;> rw [hbody] <;> rfl
    obtain rfl := Option.some.inj (hid'.symm.trans hnamed)
    exact hbody
  refine ⟨isSettled_of_takes h hs.unit hsettles, ?_, ?_⟩
  · intro id hid step hstep
    by_cases hnamed : e.body.named = some id
    · rcases hown id hid hnamed with hbody | hbody
      · obtain ⟨-, after, hget, hphase⟩ := started_of_takes (hbody ▸ h)
        obtain rfl := Option.some.inj (hget.symm.trans hstep)
        exact .inl hphase
      · obtain ⟨after, hget, hphase⟩ := completed_of_takes (hbody ▸ h)
        obtain rfl := Option.some.inj (hget.symm.trans hstep)
        exact .inr (by rw [hphase]; rfl)
    · rw [hother id hid hnamed] at hstep
      exact hs.moving id hid step hstep
  · intro id hid
    have hbefore := hs.settled id hid
    by_cases hnamed : e.body.named = some id
    · have htouch : touching toSkip (log ++ [e]) = touching toSkip log ++ [e.body] := by
        simp [touching_concat, hnamed, hid]
      rcases hown id hid hnamed with hbody | hbody
      · obtain ⟨hnew, after, hget, hphase⟩ := started_of_takes (hbody ▸ h)
        rw [htouch, hbody]
        simpa [isSettled, hnew, hget, hphase, isTerminalStepPhase] using hbefore
      · obtain ⟨after, hget, hphase⟩ := completed_of_takes (hbody ▸ h)
        rw [htouch, hbody]
        simp [isSettled, hget, hphase, isTerminalStepPhase]
    · have hsame : isSettled t id = isSettled s id := by
        rw [isSettled, isSettled, hother id hid hnamed]
      rw [hsame, hbefore, touching_concat]
      split_ifs with hany
      · have hne : EventBody.stepCompleted id (ref id) ≠ e.body := by
          intro hbody
          rw [← hbody] at hnamed
          exact hnamed rfl
        simp [hne]
      · simp

lemma skipping_of_replay (hunit : isSettled snapshot unitId = false)
    (hfirst : LeafFirst steps toSkip snapshot) (h : replay applyEvent snapshot log = .ok t)
    (hprune : touching toSkip log <+: emitSkipClosure steps snapshot toSkip ref aborted)
    (hsettles : ∀ e ∈ log, e.body.settles unitId = false) :
    Skipping toSkip ref unitId snapshot log t := by
  refine history_of_prefix (I := Skipping toSkip ref unitId snapshot) ?_ ?_ h
  · exact ⟨hunit, hfirst.moving, fun id _ => by simp [touching]⟩
  intro front e s t hfront _ hs he
  have hmem : e ∈ log := hfront.subset (by simp)
  refine hs.step (taken_of_applyEvent he).takes ?_ (hsettles e hmem)
  intro hnamed
  refine mem_emitSkipClosure (hprune.subset (List.mem_filter.mpr ⟨?_, hnamed⟩))
  exact List.mem_map.mpr ⟨e, hmem, rfl⟩

/-- What stands in a list made of parts holds all of the parts before the one it reaches into. -/
lemma flatMap_subset_of_prefix {α β : Type} {f : α → List β} {part : List β} {front back : List α}
    {x : β} (hbegins : part <+: (front ++ back).flatMap f) (hx : x ∈ part)
    (hout : x ∉ front.flatMap f) : front.flatMap f ⊆ part := by
  rw [List.flatMap_append] at hbegins
  rcases List.prefix_or_prefix_of_prefix hbegins (List.prefix_append _ _) with hshort | hlong
  · exact absurd (hshort.subset hx) hout
  · exact hlong.subset

lemma completed_mem_skipEvents {later : String} :
    EventBody.stepCompleted later (ref later) ∈ skipEvents snapshot ref id → later = id := by
  unfold skipEvents
  split <;> simp +contextual

/-- A step that is skipped is completed unless it was settled from the start. -/
lemma completed_skipEvents (hmoving : ∀ step ∈ snapshot.steps.get id,
      step.phase = .inFlight ∨ isTerminalStepPhase step.phase)
    (hopen : isSettled snapshot id = false) :
    EventBody.stepCompleted id (ref id) ∈ skipEvents snapshot ref id := by
  unfold isSettled at hopen
  unfold skipEvents
  cases hget : snapshot.steps.get id with
  | none => simp
  | some step =>
    rw [hget, Option.any_some] at hopen
    have hphase := (hmoving step hget).resolve_right (by simp [hopen])
    simp [hphase]

lemma leafFirst_of_skipping (hacyclic : validateAcyclic steps = .ok ()) (hnodup : toSkip.Nodup)
    (hfirst : LeafFirst steps toSkip snapshot)
    (hprune : touching toSkip log <+: emitSkipClosure steps snapshot toSkip ref aborted)
    (hs : Skipping toSkip ref unitId snapshot log t) : LeafFirst steps toSkip t := by
  refine ⟨hs.moving, fun id hid hsettled later hlater hfollows => ?_⟩
  rw [hs.settled later hlater]
  rcases (hs.settled id hid).mp hsettled with hbefore | hcompleted
  · exact .inl (hfirst.leaves id hid hbefore later hlater hfollows)
  cases hopen : isSettled snapshot later with
  | true => exact .inl rfl
  | false =>
    right
    unfold emitSkipClosure at hprune
    split_ifs at hprune
    · rw [List.prefix_nil.mp hprune] at hcompleted
      cases hcompleted
    -- the later step stands before the step in the order, with its completion
    obtain ⟨hperm, hpairwise⟩ := leafFirstOrder_spec hacyclic hnodup
    obtain ⟨front, back, hsplit⟩ := List.append_of_mem (hperm.mem_iff.mpr hid)
    rw [hsplit] at hprune hpairwise hperm
    have hcross := (List.pairwise_cons.mp (List.pairwise_append.mp hpairwise).2.1).1
    have hfront : later ∈ front := by
      rcases List.mem_append.mp (hperm.mem_iff.mpr hlater) with hfront | htail
      · exact hfront
      rcases List.mem_cons.mp htail with rfl | hback
      · exact absurd .refl (not_comesAfter_follower (acyclic_of_validateAcyclic hacyclic) hfollows)
      · exact absurd hfollows (hcross later hback)
    have hid' : id ∉ front := by
      have hsplitNodup := hperm.nodup_iff.mpr hnodup
      exact fun hmem => (List.nodup_append.mp hsplitNodup).2.2 id hmem id List.mem_cons_self rfl
    have hout : EventBody.stepCompleted id (ref id) ∉ front.flatMap (skipEvents snapshot ref) := by
      intro hmem
      obtain ⟨other, hother, hevent⟩ := List.mem_flatMap.mp hmem
      exact hid' (completed_mem_skipEvents hevent ▸ hother)
    apply flatMap_subset_of_prefix hprune hcompleted hout
    exact List.mem_flatMap.mpr ⟨later, hfront,
      completed_skipEvents (hfirst.moving later hlater) hopen⟩

/-- A settled step is not offered again. -/
lemma isTaken_of_isSettled (h : isSettled s id) : isTaken steps s id := by
  unfold isSettled at h
  unfold isTaken
  cases hget : s.steps.get id with
  | none => simp [hget] at h
  | some step =>
    rw [hget, Option.any_some] at h
    cases hphase : step.phase <;> simp [hphase, isTerminalStepPhase] at h <;>
      simp [isReoffered, isResumableLoopStep, isResumableAwaitingSignalStep,
        isResumableReceivedAwaitSignalStep, isResumableOnTriggerStep, isResumableSleepStep,
        isResumableChildWorkflowStep, hphase]

/-- Nothing that is skipped is offered, as long as the leaves come first. -/
lemma not_mem_nextSchedulable (hhangs : HangsFrom d.steps unitId toSkip)
    (hunit : isSettled s unitId = false) (hfirst : LeafFirst d.steps toSkip s) (hid : id ∈ toSkip) :
    id ∉ nextSchedulable d s inFlight := by
  intro hoffered
  unfold nextSchedulable at hoffered
  split_ifs at hoffered with hphase
  · cases hoffered
  simp only [List.mem_filter, Bool.and_eq_true, Bool.not_eq_true', Option.any_eq_true] at hoffered
  obtain ⟨-, ⟨-, htaken⟩, primitive, hget, hresolved⟩ := hoffered
  have hdeps : ∀ dep, id ∈ followers d.steps dep → isSettled s dep := by
    intro dep hfollows
    obtain ⟨primitive', hget', hdep⟩ := mem_followers.1 hfollows
    obtain rfl := Option.some.inj (hget.symm.trans hget')
    exact List.all_eq_true.mp hresolved dep hdep
  rcases hhangs id hid with hroot | ⟨dep, hdep, hfollows⟩
  · rw [hdeps unitId hroot] at hunit
    cases hunit
  · have hsettled := hfirst.leaves dep hdep (hdeps dep hfollows) id hid hfollows
    rw [isTaken_of_isSettled hsettled] at htaken
    cases htaken

/-- What a unit with a handler skips when it settles, or a loop when it ends. -/
inductive Skips (steps : Steps) (unitId : String) : List String → Prop
  | unit {unit : Primitive} {handlerId : String} (get : steps.get unitId = some unit)
      (isUnit : unit.kind.isUnit) (route : unit.onFailure = some handlerId)
      (settled : RouteOutcome) :
      Skips steps unitId (pruneAroundRoute steps unitId handlerId settled)
  | loop {loop : Primitive} {onExhausted : String} (get : steps.get unitId = some loop)
      (isLoop : loop.kind = .loop onExhausted) (outcome : LoopOutcome) :
      Skips steps unitId (routeLoopOutcome steps unitId onExhausted outcome)

lemma hangsFrom_of_traced {starts : List String}
    (h : Reach.Traced (followers steps) (starts.filter (· ∈ steps.keys)) toSkip)
    (hstarts : ∀ id ∈ starts, id ∈ followers steps unitId) : HangsFrom steps unitId toSkip := by
  induction h with
  | nil => exact fun _ hid => absurd hid List.not_mem_nil
  | @concat seen a _ horigin ih =>
    intro id hid
    rcases List.mem_append.mp hid with hid | hid
    · rcases ih id hid with hroot | ⟨dep, hdep, hfollows⟩
      · exact .inl hroot
      · exact .inr ⟨dep, List.mem_append_left _ hdep, hfollows⟩
    · obtain rfl := List.mem_singleton.mp hid
      rcases horigin with hstart | ⟨dep, hdep, hfollows⟩
      · exact .inl (hstarts id (List.mem_filter.mp hstart).1)
      · exact .inr ⟨dep, List.mem_append_left _ hdep, hfollows⟩

/-- What is skipped on either side of a step hangs from the step. -/
lemma hangsFrom_sides {target : String} (htarget : target ∈ followers steps unitId) :
    HangsFrom steps unitId
        (collectBranchClosure steps (normalDependents steps unitId target) [target]) ∧
      HangsFrom steps unitId
        (collectBranchClosure steps [target] (normalDependents steps unitId target)) := by
  constructor
  · refine hangsFrom_of_traced traced_collectBranchClosure fun id hid => ?_
    exact (mem_normalDependents.1 hid).2
  · refine hangsFrom_of_traced traced_collectBranchClosure fun id hid => ?_
    exact List.mem_singleton.mp hid ▸ htarget

lemma Skips.hangsFrom (h : Skips steps unitId toSkip) (hrefs : validateAfterRefs steps = .ok ()) :
    HangsFrom steps unitId toSkip := by
  have hwell := wellReferenced_of_validateAfterRefs hrefs
  cases h with
  | unit hget hunit hroute settled =>
    obtain ⟨hnormal, hhandled⟩ :=
      hangsFrom_sides (mem_followers.2 (hwell.onFailure _ _ _ hget hunit hroute))
    cases settled
    · exact hnormal
    · exact hhandled
  | loop hget hloop outcome =>
    obtain ⟨hnormal, hexhausted⟩ :=
      hangsFrom_sides (mem_followers.2 (hwell.onExhausted _ _ _ hget hloop))
    cases outcome
    · exact hexhausted
    · exact hnormal

lemma Skips.nodup (h : Skips steps unitId toSkip) : toSkip.Nodup := by
  cases h with
  | unit _ _ _ settled => cases settled <;> exact nodup_collectBranchClosure
  | loop _ _ outcome => cases outcome <;> exact nodup_collectBranchClosure

/-- **Nothing that is skipped is started**, at whatever moment, and whatever other steps do in the
meantime; and a later run can go on with the skips. -/
theorem skipped_not_offered (hrefs : validateAfterRefs d.steps = .ok ())
    (hacyclic : validateAcyclic d.steps = .ok ()) (hskips : Skips d.steps unitId toSkip)
    (hunit : isSettled snapshot unitId = false) (hfirst : LeafFirst d.steps toSkip snapshot)
    (h : replay applyEvent snapshot log = .ok t)
    (hprune : touching toSkip log <+: emitSkipClosure d.steps snapshot toSkip ref aborted)
    (hsettles : ∀ e ∈ log, e.body.settles unitId = false) :
    LeafFirst d.steps toSkip t ∧ ∀ id ∈ toSkip, id ∉ nextSchedulable d t inFlight := by
  have hskipping := skipping_of_replay hunit hfirst h hprune hsettles
  have hleaves := leafFirst_of_skipping hacyclic hskips.nodup hfirst hprune hskipping
  refine ⟨hleaves, fun id hid => ?_⟩
  exact not_mem_nextSchedulable (hskips.hangsFrom hrefs) hskipping.unit hleaves hid

lemma leafFirst_of_absent (h : ∀ id ∈ toSkip, s.steps.get id = none) :
    LeafFirst steps toSkip s where
  moving id hid step hstep := by
    rw [h id hid] at hstep
    cases hstep
  leaves id hid hsettled := by
    rw [isSettled, h id hid] at hsettled
    cases hsettled

def sampleFetching : RunState String := { emptyState "r" with
  phase := .running
  lastSeq := 2
  steps := OrderedMap.empty.set "fetch" ⟨"fetch", .inFlight, 1, none, none, none, none⟩ }

def sampleSkips : List (WorkflowEvent String) :=
  [⟨3, "t1", .stepStarted "show" 1⟩, ⟨4, "t1", .timerSet "x" "t9" none⟩,
    ⟨5, "t2", .stepCompleted "show" "ref"⟩, ⟨6, "t2", .stepStarted "use" 1⟩]

theorem skipped_not_offered_sample : ∃ t, replay applyEvent sampleFetching sampleSkips = .ok t ∧
    LeafFirst sampleSteps (pruneAroundRoute sampleSteps "fetch" "repair" .routed) t ∧
      ∀ id ∈ pruneAroundRoute sampleSteps "fetch" "repair" .routed,
        id ∉ nextSchedulable sampleDefinition t [] := by
  refine ⟨_, rfl, ?_⟩
  exact @skipped_not_offered String sampleDefinition "fetch"
    (pruneAroundRoute sampleSteps "fetch" "repair" .routed) [] (fun _ => "ref") sampleFetching _
    sampleSkips false rfl rfl (.unit rfl rfl rfl .routed) rfl (leafFirst_of_absent (by decide)) rfl
    ⟨_, rfl⟩ (by decide)

/-! ### A gate that times out

It skips with a loop of its own, in the order of the closure: a step is completed before those that
come after it, and such a step can be started before it is skipped.
-/

def timeoutSkips (steps : Steps) (gateId onTimeout : String) (timedOut : Bool) : List String :=
  let normal := normalDependents steps gateId onTimeout
  if timedOut then collectBranchClosure steps normal [onTimeout]
  else collectBranchClosure steps [onTimeout] normal

/-- What is committed for the steps that a gate skips, if it is not aborted. -/
def emitTimeoutSkips (snapshot : RunState π) (toSkip : List String) (ref : String → String) :
    List (EventBody π) :=
  toSkip.flatMap fun skipId =>
    if snapshot.steps.has skipId then []
    else [.stepStarted skipId 1, .stepCompleted skipId (ref skipId)]

/-- The events one after the other, as they are committed at a time. -/
def numbered (lastSeq : ℤ) (committedAt : String) : List (EventBody π) → List (WorkflowEvent π)
  | [] => []
  | body :: bodies => ⟨lastSeq + 1, committedAt, body⟩ :: numbered (lastSeq + 1) committedAt bodies

@[simp] lemma map_body_numbered {lastSeq : ℤ} {committedAt : String} {bodies : List (EventBody π)} :
    (numbered lastSeq committedAt bodies).map WorkflowEvent.body = bodies := by
  induction bodies generalizing lastSeq with
  | nil => rfl
  | cons body bodies ih => rw [numbered, List.map_cons, ih]

/-- Steps that were not started are skipped without being refused. -/
lemma replay_skips (ref : String → String) {ids : List String}
    (hrunning : s.phase = .running) (hseq : 0 ≤ s.lastSeq)
    (hnodup : ids.Nodup) (habsent : ∀ id ∈ ids, s.steps.get id = none) :
    ∃ t, replay applyEvent s (numbered s.lastSeq "" (ids.flatMap fun id =>
        [.stepStarted id 1, .stepCompleted id (ref id)])) = .ok t ∧ t.phase = .running ∧
      (∀ id ∈ ids, isSettled t id) ∧ ∀ id ∉ ids, t.steps.get id = s.steps.get id := by
  induction ids generalizing s with
  | nil => exact ⟨s, rfl, hrunning, by simp, by simp⟩
  | cons id ids ih =>
    obtain ⟨hid, hnodup⟩ := List.nodup_cons.mp hnodup
    let step : StepState := ⟨id, .inFlight, 1, none, none, none, none⟩
    let started : RunState π :=
      { s with steps := s.steps.set id step, lastSeq := s.lastSeq + 1 }
    let skipped : RunState π := { started with
      steps := started.steps.set id
        { step.withoutAwaiters with phase := .completed, outputRef := some (ref id) }
      lastSeq := s.lastSeq + 1 + 1 }
    have hlive : ¬ isTerminalRunPhase s.phase := by simp [hrunning, isTerminalRunPhase]
    have hnew := habsent id List.mem_cons_self
    have hstart : applyEvent s ⟨s.lastSeq + 1, "", .stepStarted id 1⟩ = .ok started := by
      have hfirst : ¬ s.lastSeq + 1 < 1 := by omega
      have hlater : ¬ s.lastSeq + 1 ≤ s.lastSeq := by omega
      rw [applyEvent, if_neg hfirst, if_neg hlater, if_neg hlive]
      simp [handleStepStarted, requireRunPhase, hrunning, OrderedMap.has, hnew, started, step, bind,
        Except.bind]
    have hskip : applyEvent started ⟨s.lastSeq + 1 + 1, "", .stepCompleted id (ref id)⟩ =
        .ok skipped := by
      have hfirst : ¬ s.lastSeq + 1 + 1 < 1 := by omega
      have hlater : ¬ s.lastSeq + 1 + 1 ≤ s.lastSeq + 1 := by omega
      rw [applyEvent, if_neg hfirst, if_neg hlater, if_neg hlive]
      simp [handleStepCompleted, requireStep, started, step, skipped, isTerminalStepPhase, bind,
        Except.bind]
    have hget : ∀ other, other ≠ id → skipped.steps.get other = s.steps.get other := by
      intro other hne
      simp [skipped, started, OrderedMap.get_set, hne]
    obtain ⟨t, ht, hphase, hsettled, hother⟩ := ih (s := skipped) hrunning
      (by simp only [skipped]; omega) hnodup fun other hmem => by
        rw [hget other fun h => hid (h ▸ hmem)]
        exact habsent other (List.mem_cons_of_mem _ hmem)
    refine ⟨t, ?_, hphase, ?_, ?_⟩
    · exact replay_cons_ok.2 ⟨started, hstart, replay_cons_ok.2 ⟨skipped, hskip, ht⟩⟩
    · intro other hmem
      rcases List.mem_cons.mp hmem with rfl | hmem
      · simp [isSettled, hother other hid, skipped, isTerminalStepPhase]
      · exact hsettled other hmem
    · intro other hmem
      obtain ⟨hne, hmem⟩ := not_or.mp (mt List.mem_cons.mpr hmem)
      rw [hother other hmem, hget other hne]

/-- What was traced is a start, or comes after a step that stands before it. -/
lemma exists_front_of_traced {starts front back : List String}
    (h : Reach.Traced (followers steps) starts (front ++ id :: back)) (hid : id ∉ starts) :
    ∃ dep ∈ front, id ∈ followers steps dep := by
  generalize hseen : front ++ id :: back = seen at h
  induction h generalizing back with
  | nil => simp at hseen
  | concat _ horigin ih =>
    rcases split_concat hseen.symm with ⟨back', rfl, rfl⟩ | ⟨rfl, rfl, rfl⟩
    · exact ih rfl
    · exact horigin.resolve_left hid

lemma emitTimeoutSkips_eq (habsent : ∀ id ∈ toSkip, snapshot.steps.get id = none) :
    emitTimeoutSkips snapshot toSkip ref =
      toSkip.flatMap fun id => [.stepStarted id 1, .stepCompleted id (ref id)] := by
  rw [emitTimeoutSkips, List.flatMap_def, List.flatMap_def]
  congr 1
  exact List.map_congr_left fun id hid => by simp [OrderedMap.has, habsent id hid]

/-- The first of what a gate skips are steps that come right after it. -/
lemma exists_traced_timeoutSkips {gateId onTimeout : String} (timedOut : Bool)
    (htarget : onTimeout ∈ followers steps gateId) :
    ∃ starts, (∀ start ∈ starts, start ∈ followers steps gateId) ∧
      Reach.Traced (followers steps) starts (timeoutSkips steps gateId onTimeout timedOut) := by
  unfold timeoutSkips
  split_ifs
  · refine ⟨_, fun start hstart => ?_, traced_collectBranchClosure⟩
    exact (mem_normalDependents.1 (List.mem_filter.mp hstart).1).2
  · refine ⟨_, fun start hstart => ?_, traced_collectBranchClosure⟩
    exact List.mem_singleton.mp (List.mem_filter.mp hstart).1 ▸ htarget

lemma nodup_timeoutSkips {gateId onTimeout : String} {timedOut : Bool} :
    (timeoutSkips steps gateId onTimeout timedOut).Nodup := by
  unfold timeoutSkips
  split_ifs <;> exact nodup_collectBranchClosure

/-- A gate does not skip itself. -/
lemma not_mem_timeoutSkips {gateId onTimeout : String} {timedOut : Bool}
    (hacyclic : validateAcyclic steps = .ok ()) (htarget : onTimeout ∈ followers steps gateId) :
    gateId ∉ timeoutSkips steps gateId onTimeout timedOut := by
  intro hmem
  have hdown : ∃ start, start ∈ followers steps gateId ∧ ComesAfter steps start gateId := by
    unfold timeoutSkips at hmem
    split_ifs at hmem
    · obtain ⟨start, hstart, -, hcomes⟩ := (mem_collectBranchClosure.1 hmem).1
      exact ⟨start, (mem_normalDependents.1 hstart).2, hcomes⟩
    · obtain ⟨start, hstart, -, hcomes⟩ := (mem_collectBranchClosure.1 hmem).1
      exact ⟨start, List.mem_singleton.mp hstart ▸ htarget, hcomes⟩
  obtain ⟨start, hstart, hcomes⟩ := hdown
  exact not_comesAfter_follower (acyclic_of_validateAcyclic hacyclic) hstart hcomes

/-- **A gate that times out leaves a gap**: a step that it skips, and that comes after one step only
which it skips as well, can be started once that one was skipped. -/
theorem timeout_skip_offered (hrefs : validateAfterRefs d.steps = .ok ())
    (hacyclic : validateAcyclic d.steps = .ok ()) {gateId onTimeout dep : String}
    {gate primitive : Primitive} {timeout : Option ℕ} {timedOut : Bool}
    (hgate : d.steps.get gateId = some gate)
    (hkind : gate.kind = .awaitSignal timeout (some onTimeout))
    (hrunning : snapshot.phase = .running) (hseq : 0 ≤ snapshot.lastSeq)
    (habsent : ∀ id ∈ timeoutSkips d.steps gateId onTimeout timedOut, snapshot.steps.get id = none)
    (hid : id ∈ timeoutSkips d.steps gateId onTimeout timedOut)
    (hget : d.steps.get id = some primitive) (hafter : primitive.after = [dep])
    (hdep : dep ∈ timeoutSkips d.steps gateId onTimeout timedOut) (hflight : id ∉ inFlight) :
    ∃ log t, log.map WorkflowEvent.body <+:
        emitTimeoutSkips snapshot (timeoutSkips d.steps gateId onTimeout timedOut) ref ∧
      replay applyEvent snapshot log = .ok t ∧ id ∈ nextSchedulable d t inFlight := by
  obtain ⟨handler, hhandler, htarget⟩ := (wellReferenced_of_validateAfterRefs hrefs).onTimeout
    gateId gate timeout onTimeout hgate hkind
  have hfollows := mem_followers.2 ⟨handler, hhandler, htarget⟩
  have hsole : ∀ other, id ∈ followers d.steps other → other = dep := by
    intro other hother
    obtain ⟨primitive', hget', hmem⟩ := mem_followers.1 hother
    obtain rfl := Option.some.inj (hget.symm.trans hget')
    simpa [hafter] using hmem
  obtain ⟨starts, hstarts, htraced⟩ := exists_traced_timeoutSkips timedOut hfollows
  obtain ⟨front, back, hsplit⟩ := List.append_of_mem hid
  have hnodup := hsplit ▸ nodup_timeoutSkips
  obtain ⟨hfrontNodup, -, hdisjoint⟩ := List.nodup_append.mp hnodup
  have hfront : dep ∈ front := by
    have hstart : id ∉ starts := by
      intro hstart
      have hgateId := hsole gateId (hstarts id hstart)
      exact not_mem_timeoutSkips hacyclic hfollows (hgateId.symm ▸ hdep)
    obtain ⟨other, hother, hnext⟩ := exists_front_of_traced (hsplit ▸ htraced) hstart
    exact hsole other hnext ▸ hother
  have hmem : ∀ other ∈ front, other ∈ timeoutSkips d.steps gateId onTimeout timedOut := by
    intro other hother
    rw [hsplit]
    exact List.mem_append_left _ hother
  obtain ⟨t, ht, hphase, hsettled, hother⟩ := replay_skips ref hrunning hseq hfrontNodup
    fun other hother => habsent other (hmem other hother)
  refine ⟨_, t, ?_, ht, ?_⟩
  · rw [map_body_numbered, emitTimeoutSkips_eq habsent, hsplit, List.flatMap_append]
    exact List.prefix_append _ _
  · have hout : id ∉ front := fun h => hdisjoint id h id List.mem_cons_self rfl
    have hnew : t.steps.get id = none := (hother id hout).trans (habsent id hid)
    rw [nextSchedulable, if_neg (not_not.mpr hphase), List.mem_filter, d.ordered]
    refine ⟨OrderedMap.mem_keys.2 ⟨primitive, hget⟩, ?_⟩
    simp [hflight, isTaken, hnew, hget, areDepsResolved, hafter, hsettled dep hfront]

/-- A gate with two steps after it, one after the other, and one for when it times out. -/
def sampleTimed : WorkflowDefinition where
  steps := {
    entries := [("ask", ⟨"ask", .awaitSignal (some 5) (some "late"), [], none⟩),
      ("late", ⟨"late", .escalation, ["ask"], none⟩), ("use", ⟨"use", .step, ["ask"], none⟩),
      ("show", ⟨"show", .step, ["use"], none⟩)]
    nodup := by decide }
  stepOrder := ["ask", "late", "use", "show"]
  ordered := rfl

theorem timeout_skip_offered_sample : ∃ log, ∃ t : RunState String,
    log.map WorkflowEvent.body <+:
        emitTimeoutSkips sampleFetching ["use", "show"] (fun _ => "ref") ∧
      replay applyEvent sampleFetching log = .ok t ∧ "show" ∈ nextSchedulable sampleTimed t [] :=
  @timeout_skip_offered String sampleTimed "show" [] (fun _ => "ref") sampleFetching rfl rfl "ask"
    "late" "use" _ _ (some 5) true rfl rfl rfl (by decide) (by decide) (by decide) rfl rfl
    (by decide) (by decide)

end Workbench.Workflow
