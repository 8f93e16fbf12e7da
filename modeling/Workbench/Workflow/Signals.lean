import Mathlib.Data.List.Perm.Subperm
import Workbench.Workflow.Takes

/-!
The signals of a run.

A delivery is addressed by a name, or by a name and an id. What is delivered twice counts once. A
signal waits in the queue of its address until a step awaits it, and goes to the first that does;
one for an id that a step holds under another name is turned away.
-/

namespace Workbench.Workflow

open Workbench.Lib Workbench.Lib.Replay

variable {π : Type} {runId name signalName : String} {correlationId c : Option String}
  {log : List (WorkflowEvent π)} {s t u : RunState π} {e : WorkflowEvent π} {body : EventBody π}
  {seq : ℤ}

/-- A signal at an address. -/
structure Arrival (π : Type) where
  signalName : String
  correlationId : Option String
  signal : QueuedSignal π
  deriving DecidableEq, Repr

/-- A signal that a step gets. -/
structure Handing (π : Type) where
  stepId : String
  arrival : Arrival π
  deriving DecidableEq, Repr

def Arrival.at (signalName : String) (correlationId : Option String) (arrival : Arrival π) : Bool :=
  arrival.signalName = signalName && arrival.correlationId = correlationId

def EventBody.received : EventBody π → Option (Arrival π)
  | signalReceived signalName signalId payload correlationId =>
    some ⟨signalName, correlationId, ⟨signalId, payload⟩⟩
  | _ => none

/-- The arrivals with one more, if its id is new. -/
def addArrival (arrivals : List (Arrival π)) (arrival : Arrival π) : List (Arrival π) :=
  if arrival.signal.id ∈ arrivals.map (·.signal.id) then arrivals else arrivals ++ [arrival]

/-- What was delivered, each id once, as it came first. -/
def arrivals (log : List (WorkflowEvent π)) : List (Arrival π) :=
  (log.filterMap (·.body.received)).foldl addArrival []

/-- What waits at an address. -/
def queued (s : RunState π) (signalName : String) : Option String → List (Arrival π)
  | none => ((s.unconsumedSignals.get signalName).getD []).map fun signal =>
      ⟨signalName, none, signal⟩
  | some correlationId =>
    (((s.unconsumedByCorrelation.get correlationId).getD []).filter
      (·.signalName = signalName)).map fun signal =>
        ⟨signalName, some correlationId, ⟨signal.id, signal.payload⟩⟩

/-- The arrival that is an event, if it is one and its id is new. -/
def arrivalOf (s : RunState π) (body : EventBody π) : Option (Arrival π) :=
  body.received.filter fun arrival => arrival.signal.id ∉ s.observedSignalIds.elements

/-- The arrival is turned away: its id is held, and nobody awaits it under its name. -/
def isTurnedAway (s : RunState π) (arrival : Arrival π) : Bool :=
  arrival.correlationId.any fun correlationId =>
    (awaiterOf s arrival.signalName (some correlationId)).isNone && held s correlationId

def turnedAwayBy (s : RunState π) (body : EventBody π) : Option (Arrival π) :=
  (arrivalOf s body).filter (isTurnedAway s)

def keptBy (s : RunState π) (body : EventBody π) : Option (Arrival π) :=
  (arrivalOf s body).filter fun arrival => !isTurnedAway s arrival

/-- The signal that a step gets with an event. -/
def handedBy (s : RunState π) (body : EventBody π) : Option (Handing π) :=
  match body with
  | .signalAwaited stepId signalName _ _ correlationId =>
    (queued s signalName correlationId).head?.map (⟨stepId, ·⟩)
  | .signalReceived signalName _ _ correlationId =>
    (arrivalOf s body).bind fun arrival =>
      (awaiterOf s signalName correlationId).map fun awaiter => ⟨awaiter.1, arrival⟩
  | _ => none

/-- What is noted of the events along the log of a run. -/
def noted {α : Type} (note : RunState π → EventBody π → Option α) (runId : String)
    (log : List (WorkflowEvent π)) : List α :=
  collect applyEvent (fun s e => note s e.body) (emptyState runId) log

/-! Along a run: what steps got, what was turned away, and what was not. -/

def handed (runId : String) (log : List (WorkflowEvent π)) : List (Handing π) :=
  noted handedBy runId log

def turnedAway (runId : String) (log : List (WorkflowEvent π)) : List (Arrival π) :=
  noted turnedAwayBy runId log

def kept (runId : String) (log : List (WorkflowEvent π)) : List (Arrival π) :=
  noted keptBy runId log

/-- Nothing is queued at an address that a step waits at. -/
def Exclusive (s : RunState π) : Prop :=
  ∀ stepId step name c, s.steps.get stepId = some step → awaitsOn name c step → queued s name c = []

/-- What becomes of the signals that were delivered. -/
structure Ledger (runId : String) (log : List (WorkflowEvent π)) (s : RunState π) : Prop where
  observed : s.observedSignalIds.elements = (arrivals log).map (·.signal.id)
  /-- each is kept or turned away, and none is both -/
  whole : (kept runId log ++ turnedAway runId log).Perm (arrivals log)
  correlated : ∀ arrival ∈ turnedAway runId log, arrival.correlationId ≠ none
  /-- what is kept is handed out in the order it came in, and the rest of it is queued -/
  fifo : ∀ name c, ((handed runId log).map Handing.arrival).filter (Arrival.at name c) ++
    queued s name c = (kept runId log).filter (Arrival.at name c)
  once : ((handed runId log).map fun handing => handing.arrival.signal.id).Nodup
  exclusive : Exclusive s

/-! ### Queues -/

lemma getD_get_setQueue {α : Type} {queues : OrderedMap String (List α)} {key k : String}
    {remaining : List α} : ((setQueue queues key remaining).get k).getD [] =
      if k = key then remaining else (queues.get k).getD [] := by
  unfold setQueue
  split_ifs with hnil hk hk
  · simp [OrderedMap.get_keep, hk, hnil]
  · simp [OrderedMap.get_keep, hk]
  · simp [hk]
  · simp [OrderedMap.get_set, hk]

lemma filter_eraseP {α : Type} {p : α → Bool} {l : List α} :
    (l.eraseP p).filter p = (l.filter p).tail := by
  induction l with
  | nil => rfl
  | cons a l ih => by_cases h : p a <;> simp [h, ih]

lemma filter_eraseP_of_disjoint {α : Type} {p q : α → Bool} {l : List α}
    (h : ∀ a, p a → q a = false) : (l.eraseP p).filter q = l.filter q := by
  induction l with
  | nil => rfl
  | cons a l ih =>
    by_cases hp : p a
    · simp [hp, h a hp]
    · simp [hp, List.filter_cons, ih]

lemma queuedFor_eq {timeoutAt : Option String} {parkKind : Option ControlParkKind} :
    queuedFor s ⟨name, timeoutAt, parkKind, c⟩ = (queued s name c).head?.map Arrival.signal := by
  cases c with
  | none => simp [queuedFor, queued, Function.comp_def]
  | some correlationId => simp [queuedFor, queued, Function.comp_def]

lemma queued_takeQueued {awaiting : AwaitingSignal} :
    queued (takeQueued s awaiting) name c =
      if name = awaiting.name ∧ c = awaiting.correlationId then (queued s name c).tail
      else queued s name c := by
  obtain ⟨name', timeoutAt, parkKind, c'⟩ := awaiting
  cases c' with
  | none =>
    cases c with
    | none =>
      simp only [queued, takeQueued, getD_get_setQueue, and_true]
      split_ifs with hname
      · rw [hname, List.map_tail]
      · rfl
    | some id => simp [queued, takeQueued]
  | some id' =>
    cases c with
    | none => simp [queued, takeQueued]
    | some id =>
      simp only [queued, takeQueued, getD_get_setQueue, Option.some.injEq]
      by_cases hid : id = id'
      · subst hid
        simp only [if_pos, and_true]
        split_ifs with hname
        · subst hname
          rw [filter_eraseP, List.map_tail]
        · rw [filter_eraseP_of_disjoint]
          intro a ha
          simp only [decide_eq_true_eq] at ha
          simp [ha, Ne.symm hname]
      · simp [hid]

lemma awaiterOf_eq_none : awaiterOf s name c = none ↔
    ∀ stepId step, s.steps.get stepId = some step → ¬ awaitsOn name c step := by
  simp only [awaiterOf, List.find?_eq_none, Prod.forall, OrderedMap.get_eq_some]

lemma awaitsOn_waiting {step : StepState} {awaiting : AwaitingSignal} :
    awaitsOn name c { step with phase := .awaitingSignal, awaitingSignal := some awaiting } ↔
      awaiting.name = name ∧ awaiting.correlationId = c := by
  simp [awaitsOn]

lemma queued_congr (hnames : t.unconsumedSignals = s.unconsumedSignals)
    (hids : t.unconsumedByCorrelation = s.unconsumedByCorrelation) :
    queued t name c = queued s name c := by
  unfold queued
  rw [hnames, hids]

lemma queued_append_correlated {signalId : String} {payload : π} {id : String}
    (hnames : t.unconsumedSignals = s.unconsumedSignals)
    (hids : t.unconsumedByCorrelation = s.unconsumedByCorrelation.set id
      ((s.unconsumedByCorrelation.get id).getD [] ++ [⟨signalId, payload, signalName⟩])) :
    queued t name c = queued s name c ++
      if name = signalName ∧ c = some id then [⟨signalName, some id, ⟨signalId, payload⟩⟩]
      else [] := by
  cases c with
  | none => simp [queued, hnames]
  | some id' =>
    simp only [queued, hids, OrderedMap.get_set, Option.some.injEq]
    by_cases hid : id' = id
    · subst hid
      by_cases hname : name = signalName
      · simp [hname]
      · simp [hname, Ne.symm hname]
    · simp [hid]

lemma queued_append_named {signalId : String} {payload : π}
    (hids : t.unconsumedByCorrelation = s.unconsumedByCorrelation)
    (hnames : t.unconsumedSignals = s.unconsumedSignals.set signalName
      ((s.unconsumedSignals.get signalName).getD [] ++ [⟨signalId, payload⟩])) :
    queued t name c = queued s name c ++
      if name = signalName ∧ c = none then [⟨signalName, none, ⟨signalId, payload⟩⟩] else [] := by
  cases c with
  | none =>
    simp only [queued, hnames, OrderedMap.get_set, and_true]
    split_ifs with hname
    · simp [hname]
    · simp
  | some id => simp [queued, hids]

/-- Where the queues of a state and of the next one differ. -/
def Requeued (s : RunState π) (body : EventBody π) (t : RunState π) (name : String)
    (c : Option String) : Prop :=
  queued t name c = queued s name c ∨
    (∃ stepId timeoutAt parkKind, body = .signalAwaited stepId name timeoutAt parkKind c ∧
      queued s name c ≠ [] ∧ queued t name c = (queued s name c).tail) ∨
    ∃ signalId payload, body = .signalReceived name signalId payload c ∧
      awaiterOf s name c = none ∧
      queued t name c = queued s name c ++ [⟨name, c, ⟨signalId, payload⟩⟩]

lemma requeued_of_unawaited {signalId : String} {payload : π}
    (hunawaited : awaiterOf s signalName correlationId = none)
    (hqueued : queued t name c = queued s name c ++
      if name = signalName ∧ c = correlationId then
        [⟨signalName, correlationId, ⟨signalId, payload⟩⟩]
      else []) :
    Requeued s (.signalReceived signalName signalId payload correlationId) t name c := by
  split_ifs at hqueued with haddress
  · obtain ⟨rfl, rfl⟩ := haddress
    exact .inr (.inr ⟨signalId, payload, rfl, hunawaited, hqueued⟩)
  · exact .inl (hqueued.trans (List.append_nil _))

lemma requeued_of_takes (h : Takes s seq body t) : Requeued s body t name c := by
  cases h with
  | @awaitedQueued stepId signalName timeoutAt parkKind correlationId step signal hget hfound =>
    have hqueues : ∀ steps lastSeq, queued { takeQueued s ⟨signalName, timeoutAt, parkKind,
        correlationId⟩ with steps := steps, lastSeq := lastSeq } name c =
          queued (takeQueued s ⟨signalName, timeoutAt, parkKind, correlationId⟩) name c :=
      fun _ _ => queued_congr rfl rfl
    rw [Requeued, hqueues, queued_takeQueued]
    split_ifs with haddress
    · obtain ⟨rfl, rfl⟩ := haddress
      refine .inr (.inl ⟨stepId, timeoutAt, parkKind, rfl, ?_, rfl⟩)
      intro hnil
      rw [queuedFor_eq, hnil] at hfound
      cases hfound
    · exact .inl rfl
  | queuedByCorrelation hnew hunawaited hfree =>
    exact requeued_of_unawaited hunawaited (queued_append_correlated rfl rfl)
  | queuedByName hnew hunawaited =>
    exact requeued_of_unawaited hunawaited (queued_append_named rfl rfl)
  | _ => exact .inl (queued_congr rfl rfl)

/-- A step that waits waited before, or was just said to, with nothing queued. -/
lemma awaits_of_takes (h : Takes s seq body t) {stepId : String} {step : StepState}
    (hget : t.steps.get stepId = some step) (hawaits : awaitsOn name c step) :
    s.steps.get stepId = some step ∨
      (∃ timeoutAt parkKind, body = .signalAwaited stepId name timeoutAt parkKind c) ∧
        queued s name c = [] := by
  cases h with
  | @awaited id signalName timeoutAt parkKind correlationId old hold hempty =>
    rw [OrderedMap.get_set] at hget
    split_ifs at hget with hid
    · obtain rfl := Option.some.inj hget
      obtain ⟨rfl, rfl⟩ := awaitsOn_waiting.1 hawaits
      rw [queuedFor_eq] at hempty
      refine .inr ⟨⟨timeoutAt, parkKind, hid ▸ rfl⟩, ?_⟩
      simpa using hempty
    · exact .inl hget
  | _ => left; grind [awaitsOn, StepState.inFlight, StepState.withoutAwaiters]

lemma Exclusive.takes (hs : Exclusive s) (h : Takes s seq body t) : Exclusive t := by
  intro stepId step name c hget hawaits
  have hempty : queued s name c = [] := by
    rcases awaits_of_takes h hget hawaits with hbefore | ⟨-, hempty⟩
    · exact hs stepId step name c hbefore hawaits
    · exact hempty
  rcases requeued_of_takes h with hsame | ⟨_, _, _, -, hne, -⟩ | ⟨_, _, hbody, hunawaited, -⟩
  · rw [hsame, hempty]
  · exact absurd hempty hne
  · rcases awaits_of_takes h hget hawaits with hbefore | ⟨⟨_, _, hawaited⟩, -⟩
    · exact absurd hawaits (awaiterOf_eq_none.1 hunawaited stepId step hbefore)
    · rw [hbody] at hawaited
      cases hawaited

/-! ### The ledger -/

lemma noted_concat {α : Type} {note : RunState π → EventBody π → Option α}
    (h : resumeFromLog runId log = .ok s) (he : applyEvent s e = .ok t) :
    noted note runId (log ++ [e]) = noted note runId log ++ (note s e.body).toList :=
  collect_concat h he

lemma arrivals_concat :
    arrivals (log ++ [e]) = e.body.received.elim (arrivals log) (addArrival (arrivals log)) := by
  rw [arrivals, List.filterMap_append, List.foldl_append, ← arrivals]
  cases hreceived : e.body.received <;> simp [hreceived]

lemma elements_insert {α : Type} [DecidableEq α] {ids : OrderedSet α} {id : α}
    (h : id ∉ ids.elements) : (ids.insert id).elements = ids.elements ++ [id] := by
  rw [OrderedSet.insert, dif_neg h]

lemma observed_of_takes (h : Takes s seq body t) : t.observedSignalIds.elements =
    s.observedSignalIds.elements ++ (arrivalOf s body).toList.map (·.signal.id) := by
  cases h with
  | duplicate hseen => simp [arrivalOf, EventBody.received, Option.filter, hseen]
  | delivered hnew | dropped hnew | queuedByCorrelation hnew | queuedByName hnew =>
    rw [elements_insert hnew]
    simp [arrivalOf, EventBody.received, Option.filter, hnew]
  | awaitedQueued =>
    unfold takeQueued
    split <;> simp [arrivalOf, EventBody.received]
  | _ => simp [arrivalOf, EventBody.received]

lemma toList_arrivalOf_split : ((keptBy s body).toList ++ (turnedAwayBy s body).toList).Perm
    (arrivalOf s body).toList := by
  rw [keptBy, turnedAwayBy]
  cases arrivalOf s body with
  | none => exact .nil
  | some arrival => cases hturned : isTurnedAway s arrival <;> simp [Option.filter, hturned]

lemma at_iff {arrival : Arrival π} :
    arrival.at name c ↔ arrival.signalName = name ∧ arrival.correlationId = c := by
  simp [Arrival.at]

lemma at_of_mem_queued {arrival : Arrival π} (h : arrival ∈ queued s name c) :
    arrival.signalName = name ∧ arrival.correlationId = c := by
  cases c with
  | none =>
    obtain ⟨signal, -, rfl⟩ := List.mem_map.mp h
    exact ⟨rfl, rfl⟩
  | some id =>
    obtain ⟨signal, -, rfl⟩ := List.mem_map.mp h
    exact ⟨rfl, rfl⟩

lemma arrivalOf_new {signalId : String} {payload : π}
    (hnew : signalId ∉ s.observedSignalIds.elements) :
    arrivalOf s (.signalReceived name signalId payload c) =
      some ⟨name, c, ⟨signalId, payload⟩⟩ := by
  simp [arrivalOf, EventBody.received, Option.filter, hnew]

lemma arrivalOf_seen {signalId : String} {payload : π}
    (hseen : signalId ∈ s.observedSignalIds.elements) :
    arrivalOf s (.signalReceived name signalId payload c) = none := by
  simp [arrivalOf, EventBody.received, Option.filter, hseen]

lemma filter_at_singleton {signal : QueuedSignal π} :
    [(⟨signalName, correlationId, signal⟩ : Arrival π)].filter (Arrival.at name c) =
      if name = signalName ∧ c = correlationId then [⟨signalName, correlationId, signal⟩]
      else [] := by
  by_cases haddress : name = signalName ∧ c = correlationId
  · obtain ⟨rfl, rfl⟩ := haddress
    simp [Arrival.at]
  · rw [if_neg haddress]
    refine List.filter_eq_nil_iff.mpr fun arrival h hat => haddress ?_
    obtain rfl := List.mem_singleton.mp h
    obtain ⟨rfl, rfl⟩ := at_iff.1 hat
    exact ⟨rfl, rfl⟩

/-- A signal that no step awaits, and that is not turned away, comes to the end of its queue. -/
lemma flow_of_unawaited {signalId : String} {payload : π}
    (hnew : signalId ∉ s.observedSignalIds.elements)
    (hunawaited : awaiterOf s signalName correlationId = none)
    (hkept : isTurnedAway s ⟨signalName, correlationId, ⟨signalId, payload⟩⟩ = false)
    (hqueued : queued t name c = queued s name c ++
      if name = signalName ∧ c = correlationId then
        [⟨signalName, correlationId, ⟨signalId, payload⟩⟩]
      else []) :
    ((handedBy s (.signalReceived signalName signalId payload correlationId)).map
        Handing.arrival).toList.filter (Arrival.at name c) ++ queued t name c = queued s name c ++
      (keptBy s (.signalReceived signalName signalId payload correlationId)).toList.filter
        (Arrival.at name c) := by
  rw [handedBy, keptBy, arrivalOf_new hnew, hqueued]
  simp [hunawaited, Option.filter, hkept, filter_at_singleton]

/-- A signal that is awaited finds its queue empty, and passes it. -/
lemma flow_of_delivered {signalId stepId : String} {payload : π} {step : StepState}
    (hs : Exclusive s) (hnew : signalId ∉ s.observedSignalIds.elements)
    (hfound : awaiterOf s signalName correlationId = some (stepId, step))
    (hqueued : queued t name c = queued s name c) :
    ((handedBy s (.signalReceived signalName signalId payload correlationId)).map
        Handing.arrival).toList.filter (Arrival.at name c) ++ queued t name c = queued s name c ++
      (keptBy s (.signalReceived signalName signalId payload correlationId)).toList.filter
        (Arrival.at name c) := by
  obtain ⟨hget, hawaits⟩ := get_of_awaiterOf hfound
  have hempty := hs stepId step signalName correlationId hget hawaits
  have hkept : isTurnedAway s ⟨signalName, correlationId, ⟨signalId, payload⟩⟩ = false := by
    cases correlationId <;> simp [isTurnedAway, hfound]
  rw [handedBy, keptBy, arrivalOf_new hnew, hqueued]
  simp only [Option.bind_some, hfound, Option.map_some, Option.filter, hkept, Bool.not_false,
    if_true, Option.toList_some, filter_at_singleton]
  split_ifs with haddress
  · obtain ⟨rfl, rfl⟩ := haddress
    simp [hempty]
  · simp

/-- **What comes to an address goes through its queue**, whatever the event. -/
lemma flow_of_takes (hs : Exclusive s) (h : Takes s seq body t) :
    ((handedBy s body).map Handing.arrival).toList.filter (Arrival.at name c) ++ queued t name c =
      queued s name c ++ (keptBy s body).toList.filter (Arrival.at name c) := by
  cases h with
  | duplicate hseen =>
    rw [handedBy, keptBy, arrivalOf_seen hseen]
    simp only [Option.bind_none, Option.map_none, Option.filter_none, Option.toList_none,
      List.filter_nil, List.nil_append, List.append_nil]
    exact queued_congr rfl rfl
  | delivered hnew hfound => exact flow_of_delivered hs hnew hfound (queued_congr rfl rfl)
  | dropped hnew hunawaited hholds =>
    rw [handedBy, keptBy, arrivalOf_new hnew]
    simp only [Option.bind_some, hunawaited, Option.map_none, Option.toList_none, List.filter_nil,
      List.nil_append, Option.filter, isTurnedAway, Option.any_some, Option.isNone_none, hholds,
      Bool.and_self, Bool.not_true, Bool.false_eq_true, if_false, List.append_nil]
    exact queued_congr rfl rfl
  | awaited hget hempty =>
    rw [queuedFor_eq, Option.map_eq_none_iff] at hempty
    simp only [handedBy, hempty, Option.map_none, Option.toList_none, List.filter_nil,
      List.nil_append, keptBy, arrivalOf, EventBody.received, Option.filter_none, List.append_nil]
    exact queued_congr rfl rfl
  | @awaitedQueued stepId signalName timeoutAt parkKind correlationId step signal hget hfound =>
    have hqueues : ∀ steps lastSeq, queued { takeQueued s ⟨signalName, timeoutAt, parkKind,
        correlationId⟩ with steps := steps, lastSeq := lastSeq } name c =
          queued (takeQueued s ⟨signalName, timeoutAt, parkKind, correlationId⟩) name c :=
      fun _ _ => queued_congr rfl rfl
    rw [hqueues, queued_takeQueued]
    rw [queuedFor_eq] at hfound
    obtain ⟨⟨name', c', head⟩, hhead, -⟩ := Option.map_eq_some_iff.mp hfound
    obtain ⟨rfl, rfl⟩ := at_of_mem_queued (List.mem_of_mem_head? hhead)
    simp only [handedBy, hhead, Option.map_some, Option.toList_some, filter_at_singleton, keptBy,
      arrivalOf, EventBody.received, Option.filter_none, Option.toList_none, List.filter_nil,
      List.append_nil]
    split_ifs with haddress
    · obtain ⟨rfl, rfl⟩ := haddress
      exact (List.eq_cons_of_mem_head? hhead).symm
    · rfl
  | queuedByCorrelation hnew hunawaited hfree =>
    exact flow_of_unawaited hnew hunawaited (by simp [isTurnedAway, hfree])
      (queued_append_correlated rfl rfl)
  | queuedByName hnew hunawaited =>
    exact flow_of_unawaited hnew hunawaited rfl (queued_append_named rfl rfl)
  | _ =>
    simp only [handedBy, keptBy, arrivalOf, EventBody.received, Option.map_none, Option.filter_none,
      Option.toList_none, List.filter_nil, List.nil_append, List.append_nil]
    exact queued_congr rfl rfl

lemma perm_append_append_comm {α : Type} {k k' l l' : List α} :
    ((k ++ k') ++ (l ++ l')).Perm ((k ++ l) ++ (k' ++ l')) := by
  rw [List.append_assoc, List.append_assoc, ← List.append_assoc k', ← List.append_assoc l]
  exact List.perm_append_comm.append_right l' |>.append_left k

/-- What the invariant of a run says; that nothing goes to two steps follows from it. -/
structure Flows (runId : String) (log : List (WorkflowEvent π)) (s : RunState π) : Prop where
  observed : s.observedSignalIds.elements = (arrivals log).map (·.signal.id)
  whole : (kept runId log ++ turnedAway runId log).Perm (arrivals log)
  correlated : ∀ arrival ∈ turnedAway runId log, arrival.correlationId ≠ none
  fifo : ∀ name c, ((handed runId log).map Handing.arrival).filter (Arrival.at name c) ++
    queued s name c = (kept runId log).filter (Arrival.at name c)
  exclusive : Exclusive s

lemma addArrival_of_observed (h : s.observedSignalIds.elements = (arrivals log).map (·.signal.id)) :
    arrivals (log ++ [e]) = arrivals log ++ (arrivalOf s e.body).toList := by
  rw [arrivals_concat, arrivalOf]
  cases e.body.received with
  | none => simp
  | some arrival =>
    rw [Option.elim_some, addArrival, Option.filter_some, h]
    split_ifs with hseen <;> simp_all

lemma correlated_of_turnedAwayBy {arrival : Arrival π} (h : turnedAwayBy s body = some arrival) :
    arrival.correlationId ≠ none := by
  intro hnone
  have hturned := (Option.filter_eq_some_iff.mp h).2
  simp [isTurnedAway, hnone] at hturned

lemma Flows.step (h : resumeFromLog runId log = .ok s) (he : applyEvent s e = .ok t)
    (htaken : Taken s e t) (hs : Flows runId log s) : Flows runId (log ++ [e]) t where
  observed := by
    rw [observed_of_takes htaken.takes, addArrival_of_observed hs.observed, hs.observed,
      List.map_append]
  whole := by
    rw [kept, turnedAway, noted_concat h he, noted_concat h he, addArrival_of_observed hs.observed]
    exact perm_append_append_comm.trans (hs.whole.append toList_arrivalOf_split)
  correlated := by
    intro arrival hmem
    rw [turnedAway, noted_concat h he, List.mem_append] at hmem
    rcases hmem with hbefore | hnow
    · exact hs.correlated arrival hbefore
    · exact correlated_of_turnedAwayBy (Option.mem_toList.mp hnow)
  fifo := by
    intro name c
    have hflow := @flow_of_takes _ name c _ _ _ _ hs.exclusive htaken.takes
    have hmap : (handedBy s e.body).toList.map Handing.arrival =
        ((handedBy s e.body).map Handing.arrival).toList := by
      cases handedBy s e.body <;> rfl
    rw [handed, kept, noted_concat h he, noted_concat h he, List.map_append, List.filter_append,
      List.append_assoc, hmap, hflow, ← List.append_assoc, List.filter_append]
    exact congrArg (· ++ _) (hs.fifo name c)
  exclusive := hs.exclusive.takes htaken.takes

lemma flows_of_resume (h : resumeFromLog runId log = .ok s) : Flows runId log s := by
  apply resume_history h
  · exact ⟨rfl, .nil, fun _ hmem => absurd hmem List.not_mem_nil, fun _ c => by cases c <;> rfl,
      fun _ _ _ _ hget => by cases hget⟩
  · intro log e s t h he htaken hs
    exact hs.step h he htaken

/-- Each arrival is handed out at most as often as it was kept. -/
lemma Flows.subperm (h : Flows runId log s) :
    ((handed runId log).map Handing.arrival).Subperm (kept runId log) := by
  classical
  apply List.subperm_ext_iff.mpr
  intro arrival _
  have hat : arrival.at arrival.signalName arrival.correlationId := at_iff.2 ⟨rfl, rfl⟩
  have hfifo := h.fifo arrival.signalName arrival.correlationId
  calc ((handed runId log).map Handing.arrival).count arrival
    _ = (((handed runId log).map Handing.arrival).filter
          (Arrival.at arrival.signalName arrival.correlationId)).count arrival :=
        (List.count_filter hat).symm
    _ ≤ ((kept runId log).filter
          (Arrival.at arrival.signalName arrival.correlationId)).count arrival := by
        rw [← hfifo, List.count_append]
        omega
    _ = (kept runId log).count arrival := List.count_filter hat

lemma Flows.once (h : Flows runId log s) :
    ((handed runId log).map fun handing => handing.arrival.signal.id).Nodup := by
  have hwhole : ((handed runId log).map Handing.arrival).Subperm (arrivals log) :=
    h.subperm.trans ((List.sublist_append_left _ _).subperm.trans h.whole.subperm)
  obtain ⟨chosen, hchosen, hsublist⟩ := hwhole
  have hids : (chosen.map (·.signal.id)).Nodup := by
    apply (hsublist.map (·.signal.id)).nodup
    rw [← h.observed]
    exact s.observedSignalIds.nodup
  have hhanded := (hchosen.map (·.signal.id)).nodup_iff.mp hids
  rwa [List.map_map] at hhanded

/-- **Where the signals of a run go.** -/
theorem ledger_of_resume (h : resumeFromLog runId log = .ok s) : Ledger runId log s :=
  have hflows := flows_of_resume h
  ⟨hflows.observed, hflows.whole, hflows.correlated, hflows.fifo, hflows.once, hflows.exclusive⟩

theorem ledger_sample : ∃ s, resumeFromLog "r" sampleLog = .ok s ∧ Ledger "r" sampleLog s :=
  exists_resume_sample.imp fun _ h => ⟨h, ledger_of_resume h⟩

end Workbench.Workflow
