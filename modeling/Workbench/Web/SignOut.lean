import Workbench.Web.QueryCache

/-!
Signing out of a browser that keeps the query cache.

A session has query clients of its own, one for its onboarding and one for its shell, whose
persistence is attached and never detached. To sign out is to clear the database, while the clients
live on: what they still have to write, and what their requests in flight still bring, is written
after the clear.
-/

namespace Workbench.Web.SignOut

open Workbench.Lib Workbench.Web.QueryCache

variable {ι κ δ : Type}

/-! ### Sessions in one browser -/

/-- The event of a client, its data marked with the client that fetched them. -/
def mark (i : ι) (event : CacheEvent κ δ) : CacheEvent κ (ι × δ) where
  type := event.type
  query :=
    { queryHash := event.query.queryHash
      queryKey := event.query.queryKey
      state :=
        { status := event.query.state.status
          data := event.query.state.data.map fun data => (i, data)
          dataUpdatedAt := event.query.state.dataUpdatedAt
          isInvalidated := event.query.state.isInvalidated } }

structure Browser (ι κ δ : Type) where
  clients : ι → Persistence κ (ι × δ)
  /-- the transactions of flushes that have not committed -/
  opened : List (Batch κ (ι × δ))
  /-- the clients of each session whose `clearPersistedQueryCache` has not completed -/
  clearing : List (List ι)
  /-- the clients of the sessions whose sign-out has cleared the database -/
  cleared : ι → Bool
  store : Store κ (ι × δ)

inductive Happening (ι κ δ : Type)
  /-- the cache of a client tells of a query; so do results that come after the sign-out -/
  | event (i : ι) (event : CacheEvent κ δ)
  | flush (i : ι)
  /-- a transaction commits -/
  | commit (n : ℕ)
  /-- the session with these clients signs out -/
  | signOut (session : List ι)
  /-- the clear of a sign-out completes -/
  | clear (n : ℕ)

def step [DecidableEq ι] (debounceMs : ℤ) (s : Browser ι κ δ) :
    Happening ι κ δ → Option (Browser ι κ δ)
  | .event i event => some { s with
      clients := Function.update s.clients i ((s.clients i).onEvent debounceMs (mark i event)) }
  | .flush i =>
    if (s.clients i).flushScheduled then
      let (persistence, batch) := (s.clients i).flush
      some { s with
        clients := Function.update s.clients i persistence
        opened := s.opened ++ batch.toList }
    else none
  | .commit n =>
    match s.opened[n]? with
    | some batch => some { s with
        opened := s.opened.eraseIdx n
        store := batch.commit s.store }
    | none => none
  | .signOut session => some { s with clearing := s.clearing ++ [session] }
  | .clear n =>
    match s.clearing[n]? with
    | some session => some { s with
        clearing := s.clearing.eraseIdx n
        cleared := fun i => s.cleared i || i ∈ session
        store := .empty }
    | none => none

def Browser.start (store : Store κ (ι × δ)) : Browser ι κ δ where
  clients _ := .attached
  opened := []
  clearing := []
  cleared _ := false
  store := store

/-! ### Hydration -/

/-- What a client knows of a query when it hydrates. -/
structure CachedQuery where
  hasData : Bool
  isFetching : Bool

/-- The entries whose data `hydrateQueryClientFromIndexedDB` sets, for a client with these
queries. -/
def hydrated (minUpdatedAt : ℕ) (existing : κ → Option CachedQuery) (store : Store κ δ) :
    List (PersistedQueryEntry κ δ) :=
  store.values.filter fun entry =>
    minUpdatedAt ≤ entry.dataUpdatedAt &&
      (existing entry.queryKey).all fun cached => !cached.hasData && !cached.isFetching

/-! ### What is left of a session -/

/-- A client has nothing to write. -/
structure Silenced (s : Browser ι κ δ) (i : ι) : Prop where
  pending : (s.clients i).pendingWrites.values = []
  opened : ∀ batch ∈ s.opened, ∀ entry ∈ batch.toWrite, entry.data.1 ≠ i

/-- A clear completes only when the clients of its session have nothing more to write, and
afterwards they record no snapshot. -/
def Quiet (s : Browser ι κ δ) : Happening ι κ δ → Prop
  | .event i event => s.cleared i → event.snapshot? = none
  | .clear n => ∀ session ∈ s.clearing[n]?, ∀ i ∈ session, Silenced s i
  | .flush _ | .commit _ | .signOut _ => True

/-- No data of these clients. -/
def NoneOf (cleared : ι → Bool) (entries : List (PersistedQueryEntry κ (ι × δ))) : Prop :=
  ∀ entry ∈ entries, cleared entry.data.1 = false

/-- Nothing of a session that has signed out is stored, nor hydrated by another client. -/
structure Clean (s : Browser ι κ δ) : Prop where
  stored : NoneOf s.cleared s.store.values
  hydrates : ∀ minUpdatedAt existing, NoneOf s.cleared (hydrated minUpdatedAt existing s.store)

/-- What holds along a run. -/
structure Inv (s : Browser ι κ δ) : Prop where
  own : ∀ i, ∀ entry ∈ (s.clients i).pendingWrites.values, entry.data.1 = i
  silenced : ∀ i, s.cleared i → Silenced s i
  stored : NoneOf s.cleared s.store.values

variable {s t : Browser ι κ δ} {i j : ι} {debounceMs : ℤ} {store : Store κ (ι × δ)}
  {entry : PersistedQueryEntry κ (ι × δ)} {batch : Batch κ (ι × δ)} {event : CacheEvent κ δ}
  {p : Persistence κ (ι × δ)} {n : ℕ} {session : List ι} {cleared : ι → Bool}

/-! ### What an event records -/

lemma snapshot?_mark : (mark i event).snapshot? = event.snapshot?.map fun entry =>
    ⟨entry.queryHash, entry.queryKey, (i, entry.data), entry.dataUpdatedAt⟩ := by
  by_cases hstate : event.TellsState ∧ event.query.state.isInvalidated = false
  · have hmark : (mark i event).TellsState ∧ (mark i event).query.state.isInvalidated = false :=
      hstate
    rw [CacheEvent.snapshot?, CacheEvent.snapshot?, if_pos hmark, if_pos hstate]
    unfold snapshotOf mark
    split_ifs
    · simp [Function.comp_def]
    · rfl
  · have hmark : ¬ ((mark i event).TellsState ∧
        (mark i event).query.state.isInvalidated = false) := hstate
    rw [CacheEvent.snapshot?, CacheEvent.snapshot?, if_neg hmark, if_neg hstate]
    rfl

/-- What is to be written after an event was to be written before it, or is its snapshot. -/
lemma mem_pending_onEvent {event : CacheEvent κ (ι × δ)}
    (h : entry ∈ (p.onEvent debounceMs event).pendingWrites.values) :
    entry ∈ p.pendingWrites.values ∨ event.snapshot? = some entry := by
  rcases onEvent_cases p debounceMs event with
    ⟨-, heq⟩ | ⟨recorded, -, hsnapshot, -, heq⟩ | ⟨-, -, heq⟩ | ⟨-, heq⟩
  · rw [heq, (scheduleFlush_eq _ debounceMs).1] at h
    exact .inl (OrderedMap.mem_values_keep h)
  · rw [heq, (scheduleFlush_eq _ debounceMs).1] at h
    rcases OrderedMap.mem_values_set h with hold | rfl
    · exact .inl hold
    · exact .inr hsnapshot
  · rw [heq] at h
    exact .inl (OrderedMap.mem_values_keep h)
  · rw [heq] at h
    exact .inl h

lemma mem_commit (h : entry ∈ (batch.commit store).values) :
    entry ∈ batch.toWrite ∨ entry ∈ store.values := by
  have hdelete : ∀ (hashes : List String) (base : Store κ (ι × δ)),
      entry ∈ (hashes.foldl (fun base hash => base.keep (· ≠ hash)) base).values →
        entry ∈ base.values := by
    intro hashes
    induction hashes with
    | nil => exact fun _ h => h
    | cons hash hashes ih => exact fun base h => OrderedMap.mem_values_keep (ih _ h)
  have hwrite : ∀ (entries : List (PersistedQueryEntry κ (ι × δ))) (base : Store κ (ι × δ)),
      entry ∈ (entries.foldl (fun base e => base.set e.queryHash e) base).values →
        entry ∈ entries ∨ entry ∈ base.values := by
    intro entries
    induction entries with
    | nil => exact fun _ h => .inr h
    | cons first entries ih =>
      intro base h
      rcases ih _ h with hmem | hmem
      · exact .inl (List.mem_cons_of_mem _ hmem)
      · rcases OrderedMap.mem_values_set hmem with hold | rfl
        · exact .inr hold
        · exact .inl List.mem_cons_self
  rcases hwrite _ _ h with hmem | hmem
  · exact .inl hmem
  · exact .inr (hdelete _ _ hmem)

/-! ### Steps -/

lemma inv_start : Inv (Browser.start store) where
  own _ _ h := absurd h List.not_mem_nil
  silenced _ h := absurd h Bool.false_ne_true
  stored _ _ := rfl

lemma mem_flush (h : batch ∈ p.flush.2) : batch.toWrite = p.pendingWrites.values := by
  simp only [Persistence.flush, Option.mem_def] at h
  split at h
  · simp at h
  · obtain rfl := Option.some.inj h
    rfl

lemma clean_of_inv (h : Inv s) : Clean s :=
  ⟨h.stored, fun _ _ entry hentry => h.stored entry (List.mem_of_mem_filter hentry)⟩

lemma Inv.commit (h : Inv s) (hbatch : s.opened[n]? = some batch) : Inv { s with
    opened := s.opened.eraseIdx n
    store := batch.commit s.store } where
  own := h.own
  silenced j hj :=
    ⟨(h.silenced j hj).pending, fun other hother =>
      (h.silenced j hj).opened other ((List.eraseIdx_sublist _ _).subset hother)⟩
  stored := by
    intro entry hentry
    rcases mem_commit hentry with hwritten | hold
    · by_contra hcleared
      have hsilent := h.silenced entry.data.1 (by simpa using hcleared)
      exact hsilent.opened batch (List.mem_of_getElem? hbatch) entry hwritten rfl
    · exact h.stored entry hold

variable [DecidableEq ι]

/-- A client that has signed out and records nothing stays silent. -/
lemma Inv.record (h : Inv s) (hquiet : s.cleared i → event.snapshot? = none) :
    Inv { s with
      clients := Function.update s.clients i
        ((s.clients i).onEvent debounceMs (mark i event)) } where
  own := by
    intro j entry hentry
    by_cases hj : j = i
    · subst hj
      simp only [Function.update_self] at hentry
      rcases mem_pending_onEvent hentry with hold | hsnapshot
      · exact h.own j entry hold
      · rw [snapshot?_mark] at hsnapshot
        obtain ⟨_, -, rfl⟩ := Option.map_eq_some_iff.mp hsnapshot
        rfl
    · simp only [Function.update_of_ne hj] at hentry
      exact h.own j entry hentry
  silenced := by
    intro j hj
    have hsilent := h.silenced j hj
    refine ⟨?_, hsilent.opened⟩
    by_cases hji : j = i
    · subst hji
      simp only [Function.update_self]
      refine List.eq_nil_iff_forall_not_mem.mpr fun entry hentry => ?_
      rcases mem_pending_onEvent hentry with hold | hsnapshot
      · rw [hsilent.pending] at hold
        exact List.not_mem_nil hold
      · simp [snapshot?_mark, hquiet hj] at hsnapshot
    · simp only [Function.update_of_ne hji]
      exact hsilent.pending
  stored := h.stored

/-- A flush takes along what its own client has to write, and no more. -/
lemma Inv.flush (h : Inv s) (i : ι) : Inv { s with
    clients := Function.update s.clients i (s.clients i).flush.1
    opened := s.opened ++ (s.clients i).flush.2.toList } where
  own := by
    intro j entry hentry
    by_cases hj : j = i
    · subst hj
      simp only [Function.update_self] at hentry
      exact absurd hentry List.not_mem_nil
    · simp only [Function.update_of_ne hj] at hentry
      exact h.own j entry hentry
  silenced := by
    intro j hj
    have hsilent := h.silenced j hj
    constructor
    · by_cases hji : j = i
      · subst hji
        simp only [Function.update_self]
        rfl
      · simp only [Function.update_of_ne hji]
        exact hsilent.pending
    · intro batch hbatch entry hentry
      rcases List.mem_append.mp hbatch with hold | hnew
      · exact hsilent.opened batch hold entry hentry
      · rw [mem_flush (Option.mem_toList.mp hnew)] at hentry
        rw [h.own i entry hentry]
        rintro rfl
        rw [hsilent.pending] at hentry
        exact List.not_mem_nil hentry
  stored := h.stored

lemma Inv.clear (h : Inv s) (hquiet : ∀ i ∈ session, Silenced s i) : Inv { s with
    clearing := s.clearing.eraseIdx n
    cleared := fun i => s.cleared i || i ∈ session
    store := .empty } where
  own := h.own
  silenced := by
    intro j hj
    have hsilent : Silenced s j := by
      rcases Bool.or_eq_true_iff.mp hj with hold | hnew
      · exact h.silenced j hold
      · exact hquiet j (by simpa using hnew)
    exact ⟨hsilent.pending, hsilent.opened⟩
  stored _ hentry := absurd hentry List.not_mem_nil

lemma inv_step {e : Happening ι κ δ} (h : Inv s) (hquiet : Quiet s e)
    (hstep : step debounceMs s e = some t) : Inv t := by
  cases e with
  | event i event =>
    obtain rfl := Option.some.inj hstep
    exact h.record hquiet
  | flush i =>
    rw [step] at hstep
    split at hstep
    · obtain rfl := Option.some.inj hstep
      exact h.flush i
    · simp at hstep
  | commit n =>
    rw [step] at hstep
    cases hbatch : s.opened[n]? with
    | none => simp [hbatch] at hstep
    | some batch =>
      rw [hbatch] at hstep
      obtain rfl := Option.some.inj hstep
      exact h.commit hbatch
  | signOut session =>
    obtain rfl := Option.some.inj hstep
    exact ⟨h.own, fun j hj => ⟨(h.silenced j hj).pending, (h.silenced j hj).opened⟩, h.stored⟩
  | clear n =>
    rw [step] at hstep
    cases hsession : s.clearing[n]? with
    | none => simp [hsession] at hstep
    | some session =>
      rw [hsession] at hstep
      obtain rfl := Option.some.inj hstep
      exact h.clear (hquiet session hsession)

/-- **Signing out leaves nothing** of a session, in every run in which the clears complete after the
last write of their session, and the session's clients record nothing afterwards. -/
theorem signOut_leaves_nothing
    (h : Transition.Reach (step debounceMs) Quiet (Browser.start store) t) : Clean t :=
  clean_of_inv (h.invariant inv_start fun _ _ _ => inv_step)

/-! ### A result that comes late -/

/-- The profile is stored, and then the session signs out. -/
def earlyResult : List (Happening Bool Unit String) :=
  [.event true ⟨.updated, profile⟩, .flush true, .commit 0, .signOut [true], .clear 0]

theorem signOut_leaves_nothing_early : ∃ t, Transition.run (step 0) (Browser.start .empty)
    earlyResult = some t ∧ t.cleared true ∧ Clean t := by
  have hevent : Transition.Reach (step 0) Quiet (Browser.start .empty) _ :=
    .tail (e := Happening.event true ⟨.updated, profile⟩) .refl
      (fun h => absurd h Bool.false_ne_true) rfl
  have hflush := Transition.Reach.tail (e := Happening.flush true) hevent trivial rfl
  have hcommit := Transition.Reach.tail (e := Happening.commit 0) hflush trivial rfl
  have hsignOut := Transition.Reach.tail (e := Happening.signOut [true]) hcommit trivial rfl
  have hclear := Transition.Reach.tail (e := Happening.clear 0) hsignOut
    (fun session hsession i hi => by
    obtain rfl : [true] = session := Option.some.inj hsession
    obtain rfl : i = true := List.mem_singleton.mp hi
    exact ⟨rfl, fun _ hbatch => absurd hbatch List.not_mem_nil⟩) rfl
  exact ⟨_, rfl, rfl, signOut_leaves_nothing hclear⟩

/-- The profile was asked for before the session signs out, and comes after the clear. -/
def lateResult : List (Happening Bool Unit String) :=
  [.signOut [true], .clear 0, .event true ⟨.updated, profile⟩, .flush true, .commit 0]

theorem late_result_is_stored : ∃ t, Transition.run (step 0) (Browser.start .empty)
    lateResult = some t ∧ t.cleared true ∧ ¬ Clean t := by
  have hend : ∃ t, Transition.run (step 0) (Browser.start .empty) lateResult = some t ∧
      t.cleared true ∧ ∃ entry ∈ t.store.values, t.cleared entry.data.1 :=
    ⟨_, rfl, rfl, _, List.mem_cons_self, rfl⟩
  obtain ⟨t, hrun, hcleared, entry, hentry, hout⟩ := hend
  refine ⟨t, hrun, hcleared, fun hclean => ?_⟩
  simp [hclean.stored entry hentry] at hout

end Workbench.Web.SignOut
