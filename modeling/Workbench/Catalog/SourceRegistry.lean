import Workbench.Catalog.ModelSources

/-!
The sources of a running agent, and how a cycle of inference goes through them.

The registry holds the sources in their order and the one that is active. A cycle starts with the
preferred source and goes on to the next one as long as the error is one of the source only.
-/

namespace Workbench.Catalog

open Workbench.Lib

inductive SourceError
  | invalidInferenceSource (message : String)
  | sourceNotFound (id : String)
  deriving DecidableEq, Repr

def SourceError.message : SourceError → String
  | invalidInferenceSource message => message
  | sourceNotFound id => s!"no source in sources[] has id {id}"

/-- The sources with their places; the active one is in its place, unless it was set by hand. -/
structure SourceRegistry where
  list : List InferenceSource
  defaultIndex : ℕ
  activeIndex : ℕ
  active : InferenceSource
  nodup : (list.map (·.id)).Nodup
  default_le : defaultIndex ≤ activeIndex
  active_lt : activeIndex < list.length
  in_place : activeIndex ≠ defaultIndex → list[activeIndex]? = some active
  deriving DecidableEq, Repr

/-- The first source with an id that stands before it, and its place. -/
def duplicateAt : List InferenceSource → List String → ℕ → Option (ℕ × String)
  | [], _, _ => none
  | source :: sources, seenIds, i =>
    if source.id ∈ seenIds then some (i, source.id)
    else duplicateAt sources (source.id :: seenIds) (i + 1)

def validateSources (sources : List InferenceSource) :
    Except SourceError (List InferenceSource) :=
  if sources = [] then .error (.invalidInferenceSource "sources[] must be non-empty")
  else
    match duplicateAt sources [] 0 with
    | some (i, id) => .error (.invalidInferenceSource s!"sources[{i}]: duplicate id {id}")
    | none => .ok sources

lemma duplicateAt_eq_none {sources : List InferenceSource} {seenIds : List String} {i : ℕ} :
    duplicateAt sources seenIds i = none ↔
      (sources.map (·.id)).Nodup ∧ ∀ source ∈ sources, source.id ∉ seenIds := by
  induction sources generalizing seenIds i with
  | nil => simp [duplicateAt]
  | cons source sources ih =>
    rw [duplicateAt]
    split_ifs with hseen
    · simp [hseen]
    · rw [ih, List.map_cons, List.nodup_cons]
      constructor
      · rintro ⟨hnodup, hnew⟩
        refine ⟨⟨fun hmem => ?_, hnodup⟩, ?_⟩
        · obtain ⟨other, hother, hid⟩ := List.mem_map.mp hmem
          exact hnew other hother (hid ▸ List.mem_cons_self)
        · rintro other (_ | ⟨_, hother⟩)
          · exact hseen
          · exact fun hmem => hnew other hother (List.mem_cons_of_mem _ hmem)
      · rintro ⟨⟨hfirst, hnodup⟩, hnew⟩
        refine ⟨hnodup, fun other hother hmem => ?_⟩
        rcases List.mem_cons.mp hmem with hid | hmem
        · exact hfirst (hid ▸ List.mem_map_of_mem hother)
        · exact hnew other (List.mem_cons_of_mem _ hother) hmem

lemma validateSources_eq_ok {sources list : List InferenceSource} :
    validateSources sources = .ok list ↔
      list = sources ∧ sources ≠ [] ∧ (sources.map (·.id)).Nodup := by
  unfold validateSources
  have hnodup := @duplicateAt_eq_none sources [] 0
  split_ifs with hnil
  · simp [hnil]
  · split
    · next hdup =>
      simp only [hdup, reduceCtorEq, false_iff] at hnodup ⊢
      rintro ⟨-, -, h⟩
      exact hnodup ⟨h, by simp⟩
    · next hdup =>
      have hnodup := (hnodup.mp hdup).1
      simp [hnil, hnodup, eq_comm]

/-- The registry that stands at one of its sources. -/
def SourceRegistry.standingAt (list : List InferenceSource) (nodup : (list.map (·.id)).Nodup)
    (index : ℕ) (hlt : index < list.length) : SourceRegistry where
  list := list
  defaultIndex := index
  activeIndex := index
  active := list[index]
  nodup := nodup
  default_le := le_rfl
  active_lt := hlt
  in_place := fun h => absurd rfl h

def createSourceRegistry (sources : List InferenceSource) (defaultSource : String) :
    Except SourceError SourceRegistry :=
  match hvalid : validateSources sources with
  | .error error => .error error
  | .ok list =>
    match hindex : list.findIdx? (·.id = defaultSource) with
    | none => .error (.sourceNotFound defaultSource)
    | some index => .ok (.standingAt list
        ((validateSources_eq_ok.1 hvalid).1 ▸ (validateSources_eq_ok.1 hvalid).2.2) index
        (List.findIdx?_eq_some_iff_getElem.mp hindex).1)

namespace SourceRegistry

def setSource (registry : SourceRegistry) (source : InferenceSource) : SourceRegistry :=
  { registry with
    active := source
    activeIndex := registry.defaultIndex
    default_le := le_rfl
    active_lt := lt_of_le_of_lt registry.default_le registry.active_lt
    in_place := fun h => absurd rfl h }

/-- All that the registry holds is replaced; where that is refused, nothing is. -/
def setSources (_ : SourceRegistry) (sources : List InferenceSource) (defaultSource : String) :
    Except SourceError SourceRegistry :=
  createSourceRegistry sources defaultSource

/-- The registry at the next source, if there is one. -/
def failOverToNextSource (registry : SourceRegistry) : Option SourceRegistry :=
  if h : registry.activeIndex + 1 < registry.list.length then
    some { registry with
      activeIndex := registry.activeIndex + 1
      active := registry.list[registry.activeIndex + 1]
      default_le := Nat.le_succ_of_le registry.default_le
      active_lt := h
      in_place := fun _ => List.getElem?_eq_getElem h }
  else none

def resetToPreferredSource (registry : SourceRegistry) : SourceRegistry :=
  if registry.activeIndex = registry.defaultIndex then registry
  else .standingAt registry.list registry.nodup registry.defaultIndex
    (lt_of_le_of_lt registry.default_le registry.active_lt)

end SourceRegistry

/-! ### A cycle of inference -/

inductive ErrorCategory
  | retryable
  | contextOverflow
  | credentialFailure
  | quotaExhausted
  | fatal
  | aborted
  | timeout
  | protocolMismatch
  deriving DecidableEq, Repr

/-- How a call of the runner ends; `silent` is without a terminal event. -/
inductive Outcome
  | done
  | error (category : ErrorCategory)
  | silent
  deriving DecidableEq, Repr

/-- The error is one of the source only. -/
def Outcome.failsOver : Outcome → Bool
  | .done | .silent => false
  | .error category =>
    category ≠ .contextOverflow && category ≠ .fatal && category ≠ .aborted

structure CycleResult where
  tried : List InferenceSource
  outcome : Outcome
  registry : SourceRegistry
  deriving DecidableEq, Repr

lemma failOver_eq_some {registry next : SourceRegistry}
    (h : registry.failOverToNextSource = some next) :
    next.list = registry.list ∧ next.defaultIndex = registry.defaultIndex ∧
      next.activeIndex = registry.activeIndex + 1 ∧
      registry.list.drop (registry.activeIndex + 1) =
        next.active :: next.list.drop (next.activeIndex + 1) := by
  unfold SourceRegistry.failOverToNextSource at h
  split_ifs at h with hlt
  obtain rfl := Option.some.inj h
  exact ⟨rfl, rfl, rfl, List.drop_eq_getElem_cons hlt⟩

lemma failOver_eq_none {registry : SourceRegistry} (h : registry.failOverToNextSource = none) :
    registry.list.drop (registry.activeIndex + 1) = [] := by
  unfold SourceRegistry.failOverToNextSource at h
  split_ifs at h with hlt
  exact List.drop_eq_nil_of_le (Nat.le_of_not_lt hlt)

/-- The calls of a cycle from the active source on. -/
def callFrom (run : InferenceSource → Outcome) (registry : SourceRegistry) : CycleResult :=
  if (run registry.active).failsOver then
    match _hnext : registry.failOverToNextSource with
    | some next =>
      let rest := callFrom run next
      ⟨registry.active :: rest.tried, rest.outcome, rest.registry⟩
    | none => ⟨[registry.active], run registry.active, registry⟩
  else ⟨[registry.active], run registry.active, registry⟩
termination_by registry.list.length - registry.activeIndex
decreasing_by
  obtain ⟨hlist, -, hactive, -⟩ := failOver_eq_some _hnext
  have hlt := registry.active_lt
  rw [hlist, hactive]
  omega

def inferenceCycle (run : InferenceSource → Outcome) (registry : SourceRegistry) : CycleResult :=
  callFrom run registry.resetToPreferredSource

/-- The sources up to the first one whose call ends the cycle. -/
def upToEnd (run : InferenceSource → Outcome) : List InferenceSource → List InferenceSource
  | [] => []
  | source :: sources =>
    if (run source).failsOver then source :: upToEnd run sources else [source]

namespace SourceRegistry

variable {run : InferenceSource → Outcome} {registry next : SourceRegistry}
  {sources : List InferenceSource} {defaultSource : String}

lemma callFrom_next (hfails : (run registry.active).failsOver)
    (hnext : registry.failOverToNextSource = some next) : callFrom run registry =
      ⟨registry.active :: (callFrom run next).tried, (callFrom run next).outcome,
        (callFrom run next).registry⟩ := by
  rw [callFrom, if_pos hfails]
  split
  · next next' hnext' =>
    obtain rfl := Option.some.inj (hnext.symm.trans hnext')
    rfl
  · next hnone => rw [hnone] at hnext; cases hnext

lemma callFrom_last (hnext : registry.failOverToNextSource = none) :
    callFrom run registry = ⟨[registry.active], run registry.active, registry⟩ := by
  rw [callFrom]
  split_ifs
  · split
    · next next' hnext' => rw [hnext] at hnext'; cases hnext'
    · rfl
  · rfl

lemma callFrom_end (hends : ¬(run registry.active).failsOver) :
    callFrom run registry = ⟨[registry.active], run registry.active, registry⟩ := by
  rw [callFrom, if_neg hends]

/-- What the calls from the active source on leave behind. -/
structure Called (run : InferenceSource → Outcome) (registry : SourceRegistry)
    (result : CycleResult) : Prop where
  tried : result.tried =
    upToEnd run (registry.active :: registry.list.drop (registry.activeIndex + 1))
  outcome : result.tried.getLast?.map run = some result.outcome
  list : result.registry.list = registry.list
  default : result.registry.defaultIndex = registry.defaultIndex
  /-- the cursor moves by one for every call but the last -/
  cursor : result.registry.activeIndex + 1 = registry.activeIndex + result.tried.length
  unmoved : result.tried.length = 1 → result.registry = registry

lemma Called.tried_ne_nil {result : CycleResult} (h : Called run registry result) :
    result.tried ≠ [] := by
  intro hnil
  have hlast := h.outcome
  rw [hnil] at hlast
  cases hlast

/-- The call of the last source. -/
lemma Called.last (hend : upToEnd run (registry.active ::
    registry.list.drop (registry.activeIndex + 1)) = [registry.active]) :
    Called run registry ⟨[registry.active], run registry.active, registry⟩ where
  tried := hend.symm
  outcome := rfl
  list := rfl
  default := rfl
  cursor := rfl
  unmoved _ := rfl

/-- The call of a source that the calls of the next ones follow. -/
lemma Called.before {result : CycleResult} (h : Called run next result)
    (hfails : (run registry.active).failsOver) (hnext : registry.failOverToNextSource = some next) :
    Called run registry ⟨registry.active :: result.tried, result.outcome, result.registry⟩ := by
  obtain ⟨hlist, hdefault, hactive, hdrop⟩ := failOver_eq_some hnext
  have hlength : 0 < result.tried.length := List.length_pos_iff.mpr h.tried_ne_nil
  refine ⟨?_, ?_, h.list.trans hlist, h.default.trans hdefault, ?_, fun hone => ?_⟩
  · rw [h.tried, hdrop]
    exact (if_pos hfails).symm
  · obtain ⟨source, rest, htried⟩ := List.exists_cons_of_ne_nil h.tried_ne_nil
    have hlast := h.outcome
    rw [htried] at hlast ⊢
    exact hlast
  · rw [h.cursor, hactive, List.length_cons]
    omega
  · rw [List.length_cons] at hone
    omega

/-- **The calls go through the sources in their order**, from the active one on. -/
lemma called_callFrom (run : InferenceSource → Outcome) (registry : SourceRegistry) :
    Called run registry (callFrom run registry) := by
  induction registry using callFrom.induct run with
  | case1 registry hfails next hnext ih =>
    rw [callFrom_next hfails hnext]
    exact ih.before hfails hnext
  | case2 registry hfails hnext =>
    rw [callFrom_last hnext]
    exact .last (by rw [failOver_eq_none hnext, upToEnd, if_pos hfails, upToEnd])
  | case3 registry hends =>
    rw [callFrom_end hends]
    exact .last (if_neg hends)

/-! ### Cycle after cycle -/

/-- The sources that a cycle can go through. -/
def chain (registry : SourceRegistry) : List InferenceSource :=
  registry.resetToPreferredSource.active :: registry.list.drop (registry.defaultIndex + 1)

lemma reset_spec : registry.resetToPreferredSource.list = registry.list ∧
    registry.resetToPreferredSource.defaultIndex = registry.defaultIndex ∧
    registry.resetToPreferredSource.activeIndex = registry.defaultIndex := by
  unfold resetToPreferredSource
  split_ifs with h
  · exact ⟨rfl, rfl, h⟩
  · exact ⟨rfl, rfl, rfl⟩

lemma reset_reset : registry.resetToPreferredSource.resetToPreferredSource =
    registry.resetToPreferredSource := by
  obtain ⟨-, hdefault, hactive⟩ := @reset_spec registry
  generalize registry.resetToPreferredSource = preferred at *
  exact if_pos (hactive.trans hdefault.symm)

/-- A reset undoes a failover. -/
lemma chain_of_moved (h : registry.activeIndex ≠ registry.defaultIndex) :
    registry.chain = registry.list.drop registry.defaultIndex := by
  rw [chain, resetToPreferredSource, if_neg h]
  exact (List.drop_eq_getElem_cons (lt_of_le_of_lt registry.default_le registry.active_lt)).symm

/-- A registry that is made of a list with its head as the default goes through the list. -/
lemma create_head {head : InferenceSource} {rest : List InferenceSource}
    (h : ((head :: rest).map (·.id)).Nodup) :
    ∃ registry, createSourceRegistry (head :: rest) head.id = .ok registry ∧
      registry.chain = head :: rest := by
  have hvalid : validateSources (head :: rest) = .ok (head :: rest) :=
    validateSources_eq_ok.2 ⟨rfl, List.cons_ne_nil _ _, h⟩
  have hindex : (head :: rest).findIdx? (·.id = head.id) = some 0 := by
    rw [List.findIdx?_cons, decide_eq_true rfl]
    rfl
  unfold createSourceRegistry
  split
  · next hrefused => rw [hvalid] at hrefused; cases hrefused
  · next list hlist =>
    obtain rfl := Except.ok.inj (hvalid.symm.trans hlist)
    split
    · next hnone => rw [hindex] at hnone; cases hnone
    · next index hsome =>
      obtain rfl := Option.some.inj (hindex.symm.trans hsome)
      exact ⟨_, rfl, rfl⟩

/-- **A cycle tries the sources in their order**, each once, until a call succeeds or fails for a
reason that is not the source's; what it ends with is what the last call ends with. The next cycle
starts again with the preferred source. A source that was set by hand is the preferred one until a
cycle goes on to another. -/
theorem cycle_tries (run : InferenceSource → Outcome) (registry : SourceRegistry) :
    (inferenceCycle run registry).tried = upToEnd run registry.chain ∧
      (inferenceCycle run registry).tried.getLast?.map run =
        some (inferenceCycle run registry).outcome ∧
      (inferenceCycle run registry).registry.chain =
        if (inferenceCycle run registry).tried.length = 1 then registry.chain
        else registry.list.drop registry.defaultIndex := by
  obtain ⟨hlist, hdefault, hactive⟩ := @reset_spec registry
  have hcalled := called_callFrom run registry.resetToPreferredSource
  refine ⟨?_, hcalled.outcome, ?_⟩
  · rw [inferenceCycle, hcalled.tried, hlist, hactive, chain]
  · unfold inferenceCycle
    split_ifs with hone
    · rw [hcalled.unmoved hone, chain, chain, reset_reset, hlist, hdefault]
    · have hmoved : (callFrom run registry.resetToPreferredSource).registry.activeIndex ≠
          (callFrom run registry.resetToPreferredSource).registry.defaultIndex := by
        have hlength := List.length_pos_iff.mpr hcalled.tried_ne_nil
        have hcursor := hcalled.cursor
        have hkept := hcalled.default
        omega
      rw [chain_of_moved hmoved, hcalled.list, hlist, hcalled.default, hdefault]

end SourceRegistry

end Workbench.Catalog
