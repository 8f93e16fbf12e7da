import Workbench.Lib.Reach
import Workbench.Workflow.Definition

/-!
What is skipped when a step routes to one side and not to the other.

The side that is not selected is skipped, with all that comes after it, as far as it does not come
after the selected side as well. Of what is skipped, a step is settled before those it comes after.
-/

namespace Workbench.Workflow

open Workbench.Lib Workbench.Lib.DepthFirst

/-- The steps that come right after a step. -/
def followers (steps : Steps) (id : String) : List String :=
  (steps.entries.filter fun entry => id ∈ entry.2.after).map Prod.fst

def downstreamClosure (steps : Steps) (starts : List String) : List String :=
  let queue := starts.filter (· ∈ steps.keys)
  Reach.search (followers steps) (fun _ => false) (Reach.enough steps.keys queue) [] queue

def collectBranchClosure (steps : Steps) (notSelected selected : List String) : List String :=
  let reachableFromSelected := downstreamClosure steps selected
  let queue := notSelected.filter (· ∈ steps.keys)
  Reach.search (followers steps) (fun id => id ∈ selected || id ∈ reachableFromSelected)
    (Reach.enough steps.keys queue) [] queue

/-- What a member of the closure comes after, within the closure. -/
def depsWithin (steps : Steps) (closure : List String) (node : String) : List String :=
  ((steps.get node).elim [] Primitive.after).filter (· ∈ closure)

/-- A visit goes from member to member, so that none is deeper than there are members. -/
def leafFirstOrder (steps : Steps) (closure : List String) : List String :=
  (closure.foldl (order (depsWithin steps closure) closure.length) ([], [])).2.reverse

/-- The steps that come after a unit, but for the one it routes to. -/
def normalDependents (steps : Steps) (unitId handlerId : String) : List String :=
  (steps.entries.filter fun entry => entry.1 ≠ handlerId ∧ unitId ∈ entry.2.after).map Prod.fst

inductive LoopOutcome
  | converged
  | exhausted
  deriving DecidableEq, Repr

inductive RouteOutcome
  | routed
  | completed
  deriving DecidableEq, Repr

/-- What is skipped when a loop ends. -/
def routeLoopOutcome (steps : Steps) (loopId onExhausted : String) (outcome : LoopOutcome) :
    List String :=
  let normal := normalDependents steps loopId onExhausted
  match outcome with
  | .converged => collectBranchClosure steps [onExhausted] normal
  | .exhausted => collectBranchClosure steps normal [onExhausted]

/-- What is skipped when a unit with a handler settles. -/
def pruneAroundRoute (steps : Steps) (unitId handlerId : String) (settled : RouteOutcome) :
    List String :=
  let normal := normalDependents steps unitId handlerId
  match settled with
  | .routed => collectBranchClosure steps normal [handlerId]
  | .completed => collectBranchClosure steps [handlerId] normal

/-- What is skipped when a gate selects a branch. -/
def runGate (steps : Steps) (thenBranch elseBranch : String) (value : Bool) : List String :=
  if value then collectBranchClosure steps [elseBranch] [thenBranch]
  else collectBranchClosure steps [thenBranch] [elseBranch]

/-- A step is the other, or comes after it, or after a step that does. -/
def ComesAfter (steps : Steps) : String → String → Prop :=
  Relation.ReflTransGen fun a b => b ∈ followers steps a

/-- A step comes after one of the starts. -/
def Downstream (steps : Steps) (starts : List String) (id : String) : Prop :=
  ∃ start ∈ starts, start ∈ steps.keys ∧ ComesAfter steps start id

variable {steps : Steps} {starts notSelected selected closure : List String} {a b id : String}

/-! ### The closures -/

lemma mem_followers : b ∈ followers steps a ↔
    ∃ primitive, steps.get b = some primitive ∧ a ∈ primitive.after := by
  simp [followers, OrderedMap.get_eq_some]

lemma followers_within : Reach.Within (followers steps) steps.keys where
  closed a _ b hb := by
    obtain ⟨primitive, hget, -⟩ := mem_followers.1 hb
    exact OrderedMap.mem_keys.2 ⟨primitive, hget⟩
  nodup a := (List.filter_sublist.map Prod.fst).nodup steps.nodup

lemma filter_keys_subset : starts.filter (· ∈ steps.keys) ⊆ steps.keys := by
  intro id hid
  simpa using (List.mem_filter.mp hid).2

lemma mem_downstreamClosure : id ∈ downstreamClosure steps starts ↔ Downstream steps starts id := by
  have hstep : Reach.Step (followers steps) (fun _ => false) =
      fun a b => b ∈ followers steps a := by
    funext a b
    simp [Reach.Step]
  rw [downstreamClosure, Reach.mem_search followers_within filter_keys_subset, Reach.Reaches, hstep]
  simp [Downstream, ComesAfter, and_assoc]

lemma Downstream.tail (h : Downstream steps starts a) (hb : b ∈ followers steps a) :
    Downstream steps starts b := by
  obtain ⟨start, hstart, hkey, hafter⟩ := h
  exact ⟨start, hstart, hkey, hafter.tail hb⟩

lemma Downstream.mem_keys (h : Downstream steps starts a) : a ∈ steps.keys := by
  obtain ⟨start, -, hkey, hafter⟩ := h
  cases hafter with
  | refl => exact hkey
  | tail _ hb =>
    obtain ⟨primitive, hget, -⟩ := mem_followers.1 hb
    exact OrderedMap.mem_keys.2 ⟨primitive, hget⟩

lemma nodup_collectBranchClosure : (collectBranchClosure steps notSelected selected).Nodup :=
  Reach.nodup_search followers_within filter_keys_subset

lemma traced_collectBranchClosure : Reach.Traced (followers steps)
    (notSelected.filter (· ∈ steps.keys)) (collectBranchClosure steps notSelected selected) :=
  Reach.traced_search followers_within filter_keys_subset

/-- **What is skipped** is all that comes after the side that is not selected, less what comes after
the selected one: the search turns back there, and there is no way around. -/
theorem mem_collectBranchClosure : id ∈ collectBranchClosure steps notSelected selected ↔
    Downstream steps notSelected id ∧ ¬ Downstream steps selected id := by
  let barred := fun id => decide (id ∈ selected) || decide (id ∈ downstreamClosure steps selected)
  have hbarred : ∀ id ∈ steps.keys, barred id = false ↔ ¬ Downstream steps selected id := by
    intro id hid
    simp only [barred, Bool.or_eq_false_iff, decide_eq_false_iff_not, mem_downstreamClosure]
    exact ⟨fun h => h.2, fun h => ⟨fun hmem => h ⟨id, hmem, hid, .refl⟩, h⟩⟩
  rw [collectBranchClosure, Reach.mem_search followers_within filter_keys_subset]
  simp only [List.mem_filter, decide_eq_true_eq]
  constructor
  · rintro ⟨start, ⟨hstart, hkey⟩, hfree, hreaches⟩
    induction hreaches with
    | refl => exact ⟨⟨start, hstart, hkey, .refl⟩, (hbarred start hkey).mp hfree⟩
    | tail _ hstep ih =>
      have hafter := ih.1.tail hstep.1
      exact ⟨hafter, (hbarred _ hafter.mem_keys).mp hstep.2⟩
  · rintro ⟨⟨start, hstart, hkey, hafter⟩, hunselected⟩
    refine ⟨start, ⟨hstart, hkey⟩, ?_⟩
    -- no step on the way comes after the selected side, since the last one does not
    induction hafter with
    | refl => exact ⟨(hbarred start hkey).mpr hunselected, .refl⟩
    | @tail b c hbefore hstep ih =>
      have hdown : Downstream steps notSelected c := ⟨start, hstart, hkey, hbefore.tail hstep⟩
      obtain ⟨hfree, hreaches⟩ := ih fun hb => hunselected (hb.tail hstep)
      exact ⟨hfree, hreaches.tail ⟨hstep, (hbarred c hdown.mem_keys).mpr hunselected⟩⟩

/-! ### The order -/

lemma acyclic_of_validateAcyclic (h : validateAcyclic steps = .ok ()) :
    Acyclic (dependents steps) := by
  rcases validateAcyclic_spec steps with ⟨-, hacyclic⟩ | ⟨cycle, herror, -⟩
  · exact hacyclic
  · rw [h] at herror
    cases herror

lemma mem_depsWithin : a ∈ depsWithin steps closure b ↔ b ∈ followers steps a ∧ a ∈ closure := by
  rw [depsWithin, List.mem_filter, mem_followers]
  cases steps.get b <;> simp

lemma followers_subset_dependents : followers steps a ⊆ dependents steps a := by
  intro b hb
  exact mem_dependents.2 (mem_dependencyEdges.2 (.inl (mem_followers.1 hb)))

/-- The ways back along what the members come after close no cycle either. -/
lemma acyclic_depsWithin (h : Acyclic (dependents steps)) : Acyclic (depsWithin steps closure) := by
  intro a hcycle
  apply h a
  rw [← Relation.transGen_swap]
  exact Relation.TransGen.mono
    (fun b c hc => followers_subset_dependents (mem_depsWithin.1 hc).1) _ _ hcycle

/-- Of steps that are without cycles, one comes after none of the others. -/
lemma exists_depsWithin_eq_nil (h : Acyclic (dependents steps)) (hne : closure ≠ []) :
    ∃ id ∈ closure, depsWithin steps closure id = [] := by
  have hclosed : ∀ a ∈ closure, depsWithin steps closure a ⊆ closure :=
    fun a _ b hb => (mem_depsWithin.1 hb).2
  obtain ⟨visited, done, -, hsettled, -, hsub, hsup⟩ := settled_order hclosed
    (List.Subset.refl closure) (Nat.le_refl _) (acyclic_depsWithin h)
  cases done with
  | nil => exact absurd (List.subset_nil.mp hsub) hne
  | cons id done => exact ⟨id, hsup List.mem_cons_self, hsettled.next_head⟩

/-- **The order of the skips**: every member once, and none before one that comes after it. -/
theorem leafFirstOrder_spec (h : validateAcyclic steps = .ok ()) (hnodup : closure.Nodup) :
    (leafFirstOrder steps closure).Perm closure ∧
      (leafFirstOrder steps closure).Pairwise fun a b => b ∉ followers steps a := by
  have hclosed : ∀ a ∈ closure, depsWithin steps closure a ⊆ closure :=
    fun a _ b hb => (mem_depsWithin.1 hb).2
  obtain ⟨visited, done, horder, hsettled, hdone, hsub, hsup⟩ := settled_order hclosed
    (List.Subset.refl closure) (Nat.le_refl _)
    (acyclic_depsWithin (acyclic_of_validateAcyclic h))
  rw [leafFirstOrder, horder]
  constructor
  · exact (List.reverse_perm done).trans
      ((List.perm_ext_iff_of_nodup hdone hnodup).mpr fun a =>
        ⟨fun ha => hsup ha, fun ha => hsub ha⟩)
  · refine List.pairwise_reverse.mpr (List.Pairwise.imp_of_mem ?_ (hsettled.pairwise hdone))
    intro a b ha hb hnot hfollows
    exact hnot (mem_depsWithin.2 ⟨hfollows, hsup hb⟩)

theorem leafFirstOrder_sample : (leafFirstOrder sampleSteps ["use", "show"]).Perm ["use", "show"] ∧
    (leafFirstOrder sampleSteps ["use", "show"]).Pairwise fun a b => b ∉ followers sampleSteps a :=
  leafFirstOrder_spec rfl (by decide)

/-! ### The routes -/

lemma mem_normalDependents {unitId handlerId : String} :
    id ∈ normalDependents steps unitId handlerId ↔
      id ≠ handlerId ∧ id ∈ followers steps unitId := by
  simp only [normalDependents, followers, List.mem_map, List.mem_filter, decide_eq_true_eq]
  constructor
  · rintro ⟨entry, ⟨hmem, hne, hafter⟩, rfl⟩
    exact ⟨hne, entry, ⟨hmem, hafter⟩, rfl⟩
  · rintro ⟨hne, entry, ⟨hmem, hafter⟩, rfl⟩
    exact ⟨entry, ⟨hmem, hne, hafter⟩, rfl⟩

/-- What comes after a unit comes after one of the sides that it routes to. -/
lemma downstream_of_comesAfter {unitId handlerId : String} (hne : id ≠ unitId)
    (h : ComesAfter steps unitId id) :
    Downstream steps (normalDependents steps unitId handlerId) id ∨
      Downstream steps [handlerId] id := by
  obtain rfl | ⟨first, hfirst, hafter⟩ := Relation.ReflTransGen.cases_head h
  · exact absurd rfl hne
  obtain ⟨primitive, hget, -⟩ := mem_followers.1 hfirst
  have hkey := OrderedMap.mem_keys.2 ⟨primitive, hget⟩
  by_cases hhandler : first = handlerId
  · exact .inr ⟨first, by simp [hhandler], hkey, hafter⟩
  · exact .inl ⟨first, mem_normalDependents.2 ⟨hhandler, hfirst⟩, hkey, hafter⟩

lemma not_comesAfter_follower (h : Acyclic (dependents steps)) (hb : b ∈ followers steps a) :
    ¬ ComesAfter steps b a := by
  intro hback
  have hcycle : Relation.TransGen (fun a b => b ∈ followers steps a) a a :=
    Relation.TransGen.head' hb hback
  exact h a (Relation.TransGen.mono (fun _ _ hc => followers_subset_dependents hc) _ _ hcycle)

/-- The side that a settled unit goes on with. -/
def liveSide (steps : Steps) (unitId handlerId : String) : RouteOutcome → List String
  | .routed => [handlerId]
  | .completed => normalDependents steps unitId handlerId

lemma mem_pruneAroundRoute {unitId handlerId : String} {settled : RouteOutcome} :
    id ∈ pruneAroundRoute steps unitId handlerId settled ↔
      (Downstream steps (normalDependents steps unitId handlerId) id ∨
        Downstream steps [handlerId] id) ∧
        ¬ Downstream steps (liveSide steps unitId handlerId settled) id := by
  cases settled <;> simp only [pruneAroundRoute, mem_collectBranchClosure, liveSide] <;> tauto

/-- **A route divides what comes after a unit** into what is skipped and what comes after the side
that it goes on with, and skips nothing else. -/
theorem pruneAroundRoute_divides (hrefs : validateAfterRefs steps = .ok ())
    (hacyclic : validateAcyclic steps = .ok ()) {unitId handlerId : String} {unit : Primitive}
    (hget : steps.get unitId = some unit) (hunit : unit.kind.isUnit)
    (hroute : unit.onFailure = some handlerId) (settled : RouteOutcome) (id : String) :
    id ∈ pruneAroundRoute steps unitId handlerId settled ↔
      id ≠ unitId ∧ ComesAfter steps unitId id ∧
        ¬ Downstream steps (liveSide steps unitId handlerId settled) id := by
  obtain ⟨handler, hhandler, hafter⟩ :=
    (wellReferenced_of_validateAfterRefs hrefs).onFailure unitId unit handlerId hget hunit hroute
  have hfollows : ∀ start, start ∈ normalDependents steps unitId handlerId ∨ start = handlerId →
      start ∈ followers steps unitId := by
    rintro start (hstart | rfl)
    · exact (mem_normalDependents.1 hstart).2
    · exact mem_followers.2 ⟨handler, hhandler, hafter⟩
  have hdown : ∀ starts, (∀ start ∈ starts, start ∈ followers steps unitId) →
      Downstream steps starts id → id ≠ unitId ∧ ComesAfter steps unitId id := by
    rintro starts hstarts ⟨start, hstart, -, hcomes⟩
    have hstep := hstarts start hstart
    refine ⟨?_, .head hstep hcomes⟩
    rintro rfl
    exact not_comesAfter_follower (acyclic_of_validateAcyclic hacyclic) hstep hcomes
  rw [mem_pruneAroundRoute]
  constructor
  · rintro ⟨hnormal | hhandled, hlive⟩
    · obtain ⟨hne, hcomes⟩ := hdown _ (fun start hstart => hfollows start (.inl hstart)) hnormal
      exact ⟨hne, hcomes, hlive⟩
    · obtain ⟨hne, hcomes⟩ := hdown _
        (fun start hstart => hfollows start (.inr (List.mem_singleton.mp hstart))) hhandled
      exact ⟨hne, hcomes, hlive⟩
  · rintro ⟨hne, hcomes, hlive⟩
    exact ⟨downstream_of_comesAfter hne hcomes, hlive⟩

theorem pruneAroundRoute_sample : "join" ∈ pruneAroundRoute sampleSteps "fetch" "repair" .routed ↔
    "join" ≠ "fetch" ∧ ComesAfter sampleSteps "fetch" "join" ∧
      ¬ Downstream sampleSteps (liveSide sampleSteps "fetch" "repair" .routed) "join" :=
  pruneAroundRoute_divides rfl rfl rfl rfl rfl .routed "join"

end Workbench.Workflow
