import Workbench.Lib.OrderedMap
import Workbench.Lib.OrderedSet
import Workbench.Lib.Transition
import Mathlib.Logic.Function.Basic

/-!
The query cache and its copy in the browser's database.

What the cache tells of its queries is gathered in a set of entries to write and a set of hashes to
delete. A flush takes both and opens a transaction, which deletes first and then writes. However the
flushes fall between the events, the database ends up with what it would hold if every event were
written at once.
-/

namespace Workbench.Web.QueryCache

open Workbench.Lib

variable {κ δ : Type}

/-! ### The cache -/

inductive QueryStatus
  | pending
  | error
  | success
  deriving DecidableEq

structure QueryState (δ : Type) where
  status : QueryStatus
  /-- none is `undefined` -/
  data : Option δ
  dataUpdatedAt : ℕ
  isInvalidated : Bool

structure Query (κ δ : Type) where
  queryHash : String
  queryKey : κ
  state : QueryState δ

inductive EventType
  | added
  | removed
  | updated
  /-- what the cache tells of its observers -/
  | observer
  deriving DecidableEq

structure CacheEvent (κ δ : Type) where
  type : EventType
  query : Query κ δ

structure PersistedQueryEntry (κ δ : Type) where
  queryHash : String
  queryKey : κ
  data : δ
  dataUpdatedAt : ℕ

/-- The object store, by query hash. -/
abbrev Store (κ δ : Type) := OrderedMap String (PersistedQueryEntry κ δ)

/-! ### What is gathered and flushed -/

/-- The state of an attached persistence. -/
structure Persistence (κ δ : Type) where
  pendingWrites : OrderedMap String (PersistedQueryEntry κ δ)
  pendingDeletes : OrderedSet String
  timer : Bool
  microtaskScheduled : Bool

def Persistence.attached : Persistence κ δ := ⟨.empty, .empty, false, false⟩

def Persistence.flushScheduled (p : Persistence κ δ) : Bool := p.timer || p.microtaskScheduled

/-- What a flush takes along. -/
structure Batch (κ δ : Type) where
  toWrite : List (PersistedQueryEntry κ δ)
  toDelete : List String

def Persistence.flush (p : Persistence κ δ) : Persistence κ δ × Option (Batch κ δ) :=
  let toWrite := p.pendingWrites.values
  let toDelete := p.pendingDeletes.elements
  (.attached, if toWrite.isEmpty && toDelete.isEmpty then none else some ⟨toWrite, toDelete⟩)

/-- The transaction of a flush. -/
def Batch.commit (b : Batch κ δ) (store : Store κ δ) : Store κ δ :=
  b.toWrite.foldl (fun store entry => store.set entry.queryHash entry)
    (b.toDelete.foldl (fun store hash => store.keep (· ≠ hash)) store)

def Persistence.scheduleFlush (debounceMs : ℤ) (p : Persistence κ δ) : Persistence κ δ :=
  if debounceMs ≤ 0 then
    if p.microtaskScheduled then p else { p with microtaskScheduled := true }
  else if p.timer then p
  else { p with timer := true }

/-- The snapshot of a query that was fetched, is not invalidated and was not just hydrated. -/
def snapshotOf (query : Query κ δ) : Option (PersistedQueryEntry κ δ) :=
  if query.state.status = .success ∧ 0 < query.state.dataUpdatedAt then
    query.state.data.map fun data => ⟨query.queryHash, query.queryKey, data,
      query.state.dataUpdatedAt⟩
  else none

/-- The entry is not written any more. -/
def Persistence.drop (p : Persistence κ δ) (hash : String) : Persistence κ δ :=
  { p with pendingWrites := p.pendingWrites.keep (· ≠ hash) }

def Persistence.delete (p : Persistence κ δ) (hash : String) : Persistence κ δ :=
  { p with pendingDeletes := p.pendingDeletes.insert hash }

def Persistence.record (p : Persistence κ δ) (hash : String) (entry : PersistedQueryEntry κ δ) :
    Persistence κ δ :=
  { p with
    pendingDeletes := p.pendingDeletes.erase hash
    pendingWrites := p.pendingWrites.set hash entry }

def Persistence.onEvent (debounceMs : ℤ) (p : Persistence κ δ) (event : CacheEvent κ δ) :
    Persistence κ δ :=
  let query := event.query
  if event.type = .removed then
    ((p.drop query.queryHash).delete query.queryHash).scheduleFlush debounceMs
  else if event.type = .updated ∨ event.type = .added then
    if query.state.isInvalidated then
      -- hydration itself gives its data no time
      if 0 < query.state.dataUpdatedAt then
        ((p.drop query.queryHash).delete query.queryHash).scheduleFlush debounceMs
      else p.drop query.queryHash
    else
      match snapshotOf query with
      | some entry => (p.record query.queryHash entry).scheduleFlush debounceMs
      | none => p
  else p

/-! ### Sessions -/

/-- A persistence, its transactions in the order in which they commit, and the database. -/
structure Session (κ δ : Type) where
  persistence : Persistence κ δ
  opened : List (Batch κ δ)
  store : Store κ δ

inductive Step (κ δ : Type)
  | event (event : CacheEvent κ δ)
  /-- the timer fires, or the microtask runs -/
  | flush
  /-- the next transaction commits -/
  | commit

def step (debounceMs : ℤ) (s : Session κ δ) : Step κ δ → Option (Session κ δ)
  | .event event => some { s with persistence := s.persistence.onEvent debounceMs event }
  | .flush =>
    if s.persistence.flushScheduled then
      let (persistence, batch) := s.persistence.flush
      some { s with persistence := persistence, opened := s.opened ++ batch.toList }
    else none
  | .commit =>
    match s.opened with
    | [] => none
    | batch :: opened => some { s with opened := opened, store := batch.commit s.store }

def Session.start (store : Store κ δ) : Session κ δ := ⟨.attached, [], store⟩

/-- No flush is to come and all transactions have committed. -/
def Session.Settled (s : Session κ δ) : Prop :=
  s.persistence.flushScheduled = false ∧ s.opened = []

def eventsOf (steps : List (Step κ δ)) : List (CacheEvent κ δ) :=
  steps.filterMap fun
    | .event event => some event
    | .flush | .commit => none

/-! ### Every event written at once -/

namespace CacheEvent

variable (event : CacheEvent κ δ)

/-- The event tells of the state of its query. -/
abbrev TellsState : Prop := event.type = .updated ∨ event.type = .added

/-- A successful snapshot. -/
def snapshot? : Option (PersistedQueryEntry κ δ) :=
  if event.TellsState ∧ event.query.state.isInvalidated = false then snapshotOf event.query
  else none

/-- The query is removed, or its live data are invalidated. -/
def Evicts : Prop :=
  event.type = .removed ∨
    (event.TellsState ∧ event.query.state.isInvalidated ∧ 0 < event.query.state.dataUpdatedAt)

instance : Decidable event.Evicts := inferInstanceAs (Decidable (_ ∨ _))

/-- The query is invalidated while its data have no time. -/
def InvalidatesUntimed : Prop :=
  event.TellsState ∧ event.query.state.isInvalidated ∧ event.query.state.dataUpdatedAt = 0

/-- What the event says of the entry of its query, if it says anything. -/
def verdict : Option (Option (PersistedQueryEntry κ δ)) :=
  if event.Evicts then some none else event.snapshot?.map some

end CacheEvent

/-- The entries, by hash. -/
abbrev Ledger (κ δ : Type) := String → Option (PersistedQueryEntry κ δ)

def writeEvent (ledger : Ledger κ δ) (event : CacheEvent κ δ) : Ledger κ δ :=
  match event.verdict with
  | some entry => Function.update ledger event.query.queryHash entry
  | none => ledger

def writeEvents (ledger : Ledger κ δ) (events : List (CacheEvent κ δ)) : Ledger κ δ :=
  events.foldl writeEvent ledger

variable {p : Persistence κ δ} {event : CacheEvent κ δ} {events : List (CacheEvent κ δ)}
  {entry : PersistedQueryEntry κ δ} {ledger : Ledger κ δ} {store : Store κ δ} {batch : Batch κ δ}
  {debounceMs : ℤ} {hash h : String} {s t : Session κ δ} {steps : List (Step κ δ)}

/-! ### What is pending -/

/-- The ledger once the pending sets are written over it. -/
def Persistence.over (p : Persistence κ δ) (ledger : Ledger κ δ) : Ledger κ δ := fun hash =>
  p.pendingWrites.get hash <|> if hash ∈ p.pendingDeletes.elements then none else ledger hash

/-- Entries stand under their hashes, and where something is pending a flush is to come. -/
structure Persistence.Sound (p : Persistence κ δ) : Prop where
  keyed : ∀ hash, ∀ entry ∈ p.pendingWrites.get hash, entry.queryHash = hash
  scheduled : p.flushScheduled = false →
    p.pendingWrites.entries = [] ∧ p.pendingDeletes.elements = []

lemma sound_attached : (Persistence.attached : Persistence κ δ).Sound :=
  ⟨fun _ _ h => by simp [Persistence.attached] at h, fun _ => ⟨rfl, rfl⟩⟩

@[simp] lemma over_attached : (Persistence.attached : Persistence κ δ).over ledger = ledger := by
  funext hash
  simp [Persistence.over, Persistence.attached]

/-- Scheduling a flush changes nothing else. -/
lemma scheduleFlush_eq (p : Persistence κ δ) (debounceMs : ℤ) :
    (p.scheduleFlush debounceMs).pendingWrites = p.pendingWrites ∧
    (p.scheduleFlush debounceMs).pendingDeletes = p.pendingDeletes ∧
    (p.scheduleFlush debounceMs).flushScheduled = true := by
  unfold Persistence.scheduleFlush
  split_ifs with h1 h2 h3
  · exact ⟨rfl, rfl, by simp [Persistence.flushScheduled, h2]⟩
  · exact ⟨rfl, rfl, by simp [Persistence.flushScheduled]⟩
  · exact ⟨rfl, rfl, by simp [Persistence.flushScheduled, h3]⟩
  · exact ⟨rfl, rfl, by simp [Persistence.flushScheduled]⟩

@[simp] lemma over_scheduleFlush :
    (p.scheduleFlush debounceMs).over ledger = p.over ledger := by
  obtain ⟨hwrites, hdeletes, -⟩ := scheduleFlush_eq p debounceMs
  unfold Persistence.over
  rw [hwrites, hdeletes]

lemma over_evict : ((p.drop hash).delete hash).over ledger =
    Function.update (p.over ledger) hash none := by
  funext h
  by_cases hh : h = hash
  · subst hh
    simp [Persistence.over, Persistence.drop, Persistence.delete, OrderedMap.get_keep,
      OrderedSet.mem_insert]
  · rw [Function.update_of_ne hh]
    simp [Persistence.over, Persistence.drop, Persistence.delete, OrderedMap.get_keep,
      OrderedSet.mem_insert, hh]

lemma over_record :
    (p.record hash entry).over ledger = Function.update (p.over ledger) hash (some entry) := by
  funext h
  by_cases hh : h = hash
  · subst hh
    simp [Persistence.over, Persistence.record]
  · rw [Function.update_of_ne hh]
    simp [Persistence.over, Persistence.record, OrderedMap.get_set, OrderedSet.mem_erase, hh]

/-- Where nothing is to be written, dropping it changes nothing. -/
lemma over_drop (hnone : p.pendingWrites.get hash = none) :
    (p.drop hash).over ledger = p.over ledger := by
  funext h
  by_cases hh : h = hash
  · subst hh
    simp [Persistence.over, Persistence.drop, OrderedMap.get_keep, hnone]
  · simp [Persistence.over, Persistence.drop, OrderedMap.get_keep, hh]

lemma queryHash_of_snapshot {query : Query κ δ} (h : snapshotOf query = some entry) :
    entry.queryHash = query.queryHash := by
  unfold snapshotOf at h
  split at h
  · obtain ⟨data, -, rfl⟩ := Option.map_eq_some_iff.mp h
    rfl
  · simp at h

/-- What an event does to what is pending. -/
lemma onEvent_cases (p : Persistence κ δ) (debounceMs : ℤ) (event : CacheEvent κ δ) :
    (event.verdict = some none ∧ p.onEvent debounceMs event =
      ((p.drop event.query.queryHash).delete event.query.queryHash).scheduleFlush debounceMs) ∨
    (∃ entry, event.verdict = some (some entry) ∧ event.snapshot? = some entry ∧
      entry.queryHash = event.query.queryHash ∧
      p.onEvent debounceMs event =
        (p.record event.query.queryHash entry).scheduleFlush debounceMs) ∨
    (event.verdict = none ∧ event.InvalidatesUntimed ∧
      p.onEvent debounceMs event = p.drop event.query.queryHash) ∨
    (event.verdict = none ∧ p.onEvent debounceMs event = p) := by
  unfold Persistence.onEvent
  simp only
  split_ifs with hremoved htells hinvalid htime
  · have hevicts : event.Evicts := .inl hremoved
    exact .inl ⟨by simp [CacheEvent.verdict, hevicts], rfl⟩
  · have hevicts : event.Evicts := .inr ⟨htells, hinvalid, htime⟩
    exact .inl ⟨by simp [CacheEvent.verdict, hevicts], rfl⟩
  · have hevicts : ¬ event.Evicts := by simp [CacheEvent.Evicts, hremoved, htime]
    refine .inr (.inr (.inl ⟨?_, ⟨htells, hinvalid, by omega⟩, rfl⟩))
    simp [CacheEvent.verdict, hevicts, CacheEvent.snapshot?, hinvalid]
  · have hevicts : ¬ event.Evicts := by simp [CacheEvent.Evicts, hremoved, hinvalid]
    have hsnapshot : event.snapshot? = snapshotOf event.query := by
      rw [CacheEvent.snapshot?, if_pos ⟨htells, by simpa using hinvalid⟩]
    cases hentry : snapshotOf event.query with
    | none =>
      exact .inr (.inr (.inr ⟨by simp [CacheEvent.verdict, hevicts, hsnapshot, hentry], rfl⟩))
    | some entry =>
      refine .inr (.inl ⟨entry, ?_, hsnapshot.trans hentry, queryHash_of_snapshot hentry, rfl⟩)
      simp [CacheEvent.verdict, hevicts, hsnapshot, hentry]
  · have hevicts : ¬ event.Evicts := by simp [CacheEvent.Evicts, hremoved, htells]
    refine .inr (.inr (.inr ⟨?_, rfl⟩))
    simp [CacheEvent.verdict, hevicts, CacheEvent.snapshot?, htells]

lemma writeEvent_some {verdict : Option (PersistedQueryEntry κ δ)}
    (h : event.verdict = some verdict) :
    writeEvent ledger event = Function.update ledger event.query.queryHash verdict := by
  rw [writeEvent, h]

lemma writeEvent_none (h : event.verdict = none) : writeEvent ledger event = ledger := by
  rw [writeEvent, h]

/-- Nothing that is to be written is in the way of an event. -/
def Persistence.Clear (p : Persistence κ δ) (event : CacheEvent κ δ) : Prop :=
  event.InvalidatesUntimed → p.pendingWrites.get event.query.queryHash = none

lemma over_onEvent (hclear : p.Clear event) :
    (p.onEvent debounceMs event).over ledger = writeEvent (p.over ledger) event := by
  rcases onEvent_cases p debounceMs event with
    ⟨hverdict, heq⟩ | ⟨entry, hverdict, -, -, heq⟩ | ⟨hverdict, huntimed, heq⟩ | ⟨hverdict, heq⟩
  · rw [heq, over_scheduleFlush, over_evict, writeEvent_some hverdict]
  · rw [heq, over_scheduleFlush, over_record, writeEvent_some hverdict]
  · rw [heq, over_drop (hclear huntimed), writeEvent_none hverdict]
  · rw [heq, writeEvent_none hverdict]

lemma Persistence.Sound.drop (h : p.Sound) (hash : String) : (p.drop hash).Sound where
  keyed := by
    intro hash' entry hentry
    rw [Persistence.drop, Option.mem_def, OrderedMap.get_keep] at hentry
    split at hentry
    · exact h.keyed hash' entry hentry
    · simp at hentry
  scheduled hflush := by
    obtain ⟨hwrites, hdeletes⟩ := h.scheduled hflush
    refine ⟨?_, hdeletes⟩
    simp [Persistence.drop, OrderedMap.keep, hwrites]

/-- Once a flush is scheduled, only the keys count. -/
lemma sound_scheduleFlush (h : ∀ hash, ∀ entry ∈ p.pendingWrites.get hash, entry.queryHash = hash) :
    (p.scheduleFlush debounceMs).Sound := by
  obtain ⟨hwrites, -, hscheduled⟩ := scheduleFlush_eq p debounceMs
  constructor
  · rwa [hwrites]
  · simp [hscheduled]

lemma Persistence.Sound.onEvent (h : p.Sound) : (p.onEvent debounceMs event).Sound := by
  rcases onEvent_cases p debounceMs event with
    ⟨-, heq⟩ | ⟨entry, -, -, hhash, heq⟩ | ⟨-, -, heq⟩ | ⟨-, heq⟩
  · rw [heq]
    exact sound_scheduleFlush (h.drop _).keyed
  · rw [heq]
    refine sound_scheduleFlush fun hash entry' hentry => ?_
    rw [Persistence.record, Option.mem_def, OrderedMap.get_set] at hentry
    split at hentry
    · next hself =>
      obtain rfl := Option.some.inj hentry
      rw [hhash, hself]
    · exact h.keyed hash entry' hentry
  · rw [heq]
    exact h.drop _
  · rw [heq]
    exact h

/-- An event leaves the way clear for a later one, unless it is a snapshot of its query. -/
lemma Persistence.Clear.onEvent {later : CacheEvent κ δ} (h : p.Clear later)
    (hfresh : event.snapshot?.isSome → later.InvalidatesUntimed →
      event.query.queryHash ≠ later.query.queryHash) :
    (p.onEvent debounceMs event).Clear later := by
  intro huntimed
  have hnone := h huntimed
  have hdrop : (p.drop event.query.queryHash).pendingWrites.get later.query.queryHash = none := by
    simp [Persistence.drop, OrderedMap.get_keep, hnone]
  rcases onEvent_cases p debounceMs event with
    ⟨-, heq⟩ | ⟨entry, -, hsnapshot, -, heq⟩ | ⟨-, -, heq⟩ | ⟨-, heq⟩
  · rw [heq, (scheduleFlush_eq _ debounceMs).1]
    exact hdrop
  · have hne := hfresh (by rw [hsnapshot]; rfl) huntimed
    rw [heq, (scheduleFlush_eq _ debounceMs).1, Persistence.record, OrderedMap.get_set,
      if_neg hne.symm]
    exact hnone
  · rw [heq]
    exact hdrop
  · rw [heq]
    exact hnone

/-! ### Transactions -/

lemma get_delete_all (hashes : List String) :
    (hashes.foldl (fun store hash => store.keep (· ≠ hash)) store).get h =
      if h ∈ hashes then none else store.get h := by
  induction hashes generalizing store with
  | nil => simp
  | cons hash hashes ih =>
    rw [List.foldl_cons, ih, OrderedMap.get_keep]
    by_cases hh : h = hash
    · simp [hh]
    · simp [hh]

/-- A transaction writes what was pending over what is stored. -/
lemma get_commit (hkeyed : ∀ hash, ∀ entry ∈ p.pendingWrites.get hash, entry.queryHash = hash) :
    ((⟨p.pendingWrites.values, p.pendingDeletes.elements⟩ : Batch κ δ).commit store).get =
      p.over store.get := by
  funext h
  have hwrites (base : Store κ δ) : p.pendingWrites.values.foldl
      (fun store entry => store.set entry.queryHash entry) base = base.merge p.pendingWrites := by
    rw [OrderedMap.values, List.foldl_map, OrderedMap.merge]
    refine List.foldl_ext _ _ _ fun store e he => ?_
    rw [hkeyed e.1 e.2 (OrderedMap.get_eq_some.2 he)]
  rw [Batch.commit, hwrites, OrderedMap.get_merge, get_delete_all]
  rfl

def commitAll (opened : List (Batch κ δ)) (store : Store κ δ) : Store κ δ :=
  opened.foldl (fun store batch => batch.commit store) store

/-- What the database holds once everything under way is written. -/
def Session.visible (s : Session κ δ) : Ledger κ δ :=
  s.persistence.over (commitAll s.opened s.store).get

lemma visible_flush (hsound : p.Sound) (opened : List (Batch κ δ)) :
    Session.visible ⟨p.flush.1, opened ++ p.flush.2.toList, store⟩ =
      Session.visible ⟨p, opened, store⟩ := by
  simp only [Session.visible, Persistence.flush, over_attached]
  split_ifs with hempty
  · obtain ⟨hwrites, hdeletes⟩ : p.pendingWrites.values = [] ∧ p.pendingDeletes.elements = [] := by
      simpa using hempty
    have hget (hash : String) : p.pendingWrites.get hash = none :=
      OrderedMap.lookup_eq_none.2 (by rw [List.map_eq_nil_iff.mp hwrites]; exact List.not_mem_nil)
    funext hash
    simp [Persistence.over, hget, hdeletes]
  · rw [Option.toList_some, commitAll, List.foldl_append]
    exact get_commit hsound.keyed

/-- A step writes its event, if it has one, to what will be stored. -/
lemma step_visible {a : Step κ δ} (hsound : s.persistence.Sound)
    (hclear : ∀ event ∈ eventsOf [a], s.persistence.Clear event)
    (hstep : step debounceMs s a = some t) :
    t.visible = writeEvents s.visible (eventsOf [a]) ∧ t.persistence.Sound := by
  cases a with
  | event event =>
    obtain rfl := Option.some.inj hstep
    exact ⟨over_onEvent (hclear event List.mem_cons_self), hsound.onEvent⟩
  | flush =>
    rw [step] at hstep
    split at hstep
    · obtain rfl := Option.some.inj hstep
      exact ⟨visible_flush hsound s.opened, sound_attached⟩
    · simp at hstep
  | commit =>
    rw [step] at hstep
    cases hopened : s.opened with
    | nil => simp [hopened] at hstep
    | cons batch opened =>
      rw [hopened] at hstep
      obtain rfl := Option.some.inj hstep
      refine ⟨?_, hsound⟩
      simp only [Session.visible, hopened]
      rfl

/-! ### Whole runs -/

/-- A query is invalidated without a time only as long as it has had no successful snapshot. -/
def Untimed (events : List (CacheEvent κ δ)) : Prop :=
  events.Pairwise fun earlier later => earlier.snapshot?.isSome → later.InvalidatesUntimed →
    earlier.query.queryHash ≠ later.query.queryHash

lemma eventsOf_cons (a : Step κ δ) (steps : List (Step κ δ)) :
    eventsOf (a :: steps) = eventsOf [a] ++ eventsOf steps := by
  simp only [eventsOf]
  rw [← List.filterMap_append]
  rfl

/-- After a step the way is clear for the events to come. -/
lemma clear_step {a : Step κ δ} {later : CacheEvent κ δ} (hclear : s.persistence.Clear later)
    (hfresh : ∀ event ∈ eventsOf [a], event.snapshot?.isSome → later.InvalidatesUntimed →
      event.query.queryHash ≠ later.query.queryHash)
    (hstep : step debounceMs s a = some t) : t.persistence.Clear later := by
  cases a with
  | event event =>
    obtain rfl := Option.some.inj hstep
    exact hclear.onEvent (hfresh event List.mem_cons_self)
  | flush =>
    rw [step] at hstep
    split at hstep
    · obtain rfl := Option.some.inj hstep
      exact fun _ => rfl
    · simp at hstep
  | commit =>
    rw [step] at hstep
    cases hopened : s.opened with
    | nil => simp [hopened] at hstep
    | cons batch opened =>
      rw [hopened] at hstep
      obtain rfl := Option.some.inj hstep
      exact hclear

lemma run_visible (hsound : s.persistence.Sound)
    (hclear : ∀ event ∈ eventsOf steps, s.persistence.Clear event)
    (huntimed : Untimed (eventsOf steps))
    (hrun : Transition.run (step debounceMs) s steps = some t) :
    t.visible = writeEvents s.visible (eventsOf steps) ∧ t.persistence.Sound := by
  induction steps generalizing s with
  | nil =>
    obtain rfl := Option.some.inj hrun
    exact ⟨rfl, hsound⟩
  | cons a steps ih =>
    obtain ⟨u, hstep, hrest⟩ := Option.bind_eq_some_iff.mp hrun
    rw [eventsOf_cons] at hclear huntimed ⊢
    obtain ⟨-, hlater, hacross⟩ := List.pairwise_append.mp huntimed
    obtain ⟨hvisible, hsound'⟩ := step_visible hsound
      (fun event he => hclear event (List.mem_append_left _ he)) hstep
    have hclear' : ∀ event ∈ eventsOf steps, u.persistence.Clear event := fun later he =>
      clear_step (hclear later (List.mem_append_right _ he))
        (fun event hevent => hacross event hevent later he) hstep
    obtain ⟨hrun', hsound''⟩ := ih hsound' hclear' hlater hrest
    exact ⟨by rw [hrun', hvisible, writeEvents, writeEvents, writeEvents, List.foldl_append],
      hsound''⟩

lemma visible_of_settled (hsound : t.persistence.Sound) (h : t.Settled) :
    t.visible = t.store.get := by
  obtain ⟨hwrites, hdeletes⟩ := hsound.scheduled h.1
  have hget (hash : String) : t.persistence.pendingWrites.get hash = none :=
    OrderedMap.lookup_eq_none.2 (by rw [hwrites]; exact List.not_mem_nil)
  funext hash
  simp [Session.visible, Persistence.over, hget, hdeletes, h.2, commitAll]

/-- The stored entries are those of all events, written at once. -/
lemma store_eq (huntimed : Untimed (eventsOf steps))
    (hrun : Transition.run (step debounceMs) (Session.start store) steps = some t)
    (hsettled : t.Settled) : t.store.get = writeEvents store.get (eventsOf steps) := by
  obtain ⟨hvisible, hsound⟩ := run_visible sound_attached (fun _ _ _ => rfl) huntimed hrun
  rw [← visible_of_settled hsound hsettled, hvisible, Session.visible, Session.start, over_attached]
  rfl

/-- No event says anything of the entry with this hash. -/
def Silent (events : List (CacheEvent κ δ)) (hash : String) : Prop :=
  ∀ event ∈ events, event.query.queryHash = hash → event.verdict = none

/-- What is stored after the events: for each query what was said of it last. -/
structure Stores (events : List (CacheEvent κ δ)) (before after : Ledger κ δ) : Prop where
  kept : ∀ earlier event later entry, events = earlier ++ event :: later →
    event.snapshot? = some entry → Silent later event.query.queryHash →
      after event.query.queryHash = some entry
  evicted : ∀ earlier event later, events = earlier ++ event :: later → event.Evicts →
    Silent later event.query.queryHash → after event.query.queryHash = none
  untouched : ∀ hash, Silent events hash → after hash = before hash

lemma writeEvents_silent (h : Silent events hash) :
    writeEvents ledger events hash = ledger hash := by
  induction events generalizing ledger with
  | nil => rfl
  | cons event events ih =>
    obtain ⟨hevent, hevents⟩ := List.forall_mem_cons.mp h
    rw [writeEvents, List.foldl_cons]
    refine (ih hevents).trans ?_
    cases hverdict : event.verdict with
    | none => rw [writeEvent_none hverdict]
    | some verdict =>
      rw [writeEvent_some hverdict, Function.update_of_ne]
      rintro rfl
      simp [hevent rfl] at hverdict

lemma writeEvents_last {earlier later : List (CacheEvent κ δ)}
    {verdict : Option (PersistedQueryEntry κ δ)} (hverdict : event.verdict = some verdict)
    (hsilent : Silent later event.query.queryHash) :
    writeEvents ledger (earlier ++ event :: later) event.query.queryHash = verdict := by
  rw [writeEvents, List.foldl_append, List.foldl_cons, writeEvent_some hverdict]
  refine (writeEvents_silent hsilent).trans ?_
  rw [Function.update_self]

lemma verdict_of_snapshot (h : event.snapshot? = some entry) :
    event.verdict = some (some entry) := by
  have hevicts : ¬ event.Evicts := by
    unfold CacheEvent.snapshot? at h
    split at h
    · next hsnapshot =>
      rintro (hremoved | ⟨-, hinvalid, -⟩)
      · simp [CacheEvent.TellsState, hremoved] at hsnapshot
      · simp [hinvalid] at hsnapshot
    · simp at h
  rw [CacheEvent.verdict, if_neg hevicts, h]
  rfl

lemma stores_writeEvents : Stores events ledger (writeEvents ledger events) where
  kept := by
    rintro earlier event later entry rfl hsnapshot hsilent
    exact writeEvents_last (verdict_of_snapshot hsnapshot) hsilent
  evicted := by
    rintro earlier event later rfl hevicts hsilent
    exact writeEvents_last (by rw [CacheEvent.verdict, if_pos hevicts]) hsilent
  untouched _ hsilent := writeEvents_silent hsilent

/-- **Flushes write what the events say**, wherever they fall: once all have committed, the last
successful snapshot of a query is stored unless the query was removed or its live data invalidated
after it, and any other run with the same events stores the same. -/
theorem flushes_write_events (huntimed : Untimed (eventsOf steps))
    (hrun : Transition.run (step debounceMs) (Session.start store) steps = some t)
    (hsettled : t.Settled) :
    Stores (eventsOf steps) store.get t.store.get ∧
      ∀ (steps' : List (Step κ δ)) (debounceMs' : ℤ) (t' : Session κ δ),
        eventsOf steps' = eventsOf steps →
        Transition.run (step debounceMs') (Session.start store) steps' = some t' → t'.Settled →
          t'.store.get = t.store.get := by
  have hstore := store_eq huntimed hrun hsettled
  constructor
  · rw [hstore]
    exact stores_writeEvents
  · intro steps' debounceMs' t' hevents hrun' hsettled'
    rw [store_eq (hevents ▸ huntimed) hrun' hsettled', hevents, hstore]

/-- The profile of the one who is signed in. -/
def profile : Query Unit String where
  queryHash := "[\"me\",\"profile\"]"
  queryKey := ()
  state := ⟨.success, some "Ana", 1700000000000, false⟩

def removedAfterFlush : List (Step Unit String) :=
  [.event ⟨.updated, profile⟩, .flush, .commit, .event ⟨.removed, profile⟩, .flush, .commit]

/-- A snapshot that is stored and removed again, with a flush in between. -/
theorem flushes_write_events_removed : ∃ t, Transition.run (step 0) (Session.start .empty)
    removedAfterFlush = some t ∧ t.store.get profile.queryHash = none := by
  have huntimed : Untimed (eventsOf removedAfterFlush) := by
    simp [Untimed, eventsOf, removedAfterFlush, CacheEvent.InvalidatesUntimed,
      CacheEvent.TellsState]
  have hend : ∃ t, Transition.run (step 0) (Session.start .empty) removedAfterFlush = some t ∧
      t.Settled := ⟨_, rfl, rfl, rfl⟩
  obtain ⟨t, hrun, hsettled⟩ := hend
  refine ⟨t, hrun, (flushes_write_events huntimed hrun hsettled).1.evicted [⟨.updated, profile⟩]
    ⟨.removed, profile⟩ [] rfl (.inl rfl) ?_⟩
  simp [Silent]

end Workbench.Web.QueryCache
