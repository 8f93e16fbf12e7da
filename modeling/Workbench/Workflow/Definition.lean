import Workbench.Lib.DepthFirst
import Workbench.Lib.Grouping
import Workbench.Lib.OrderedMap

/-!
The steps of a workflow, and what is asked of them before the workflow runs.

A step names the steps it comes after, and its kind may name steps that it routes to. All steps that
are named are steps of the workflow, and no way along these names leads back to where it began.
-/

namespace Workbench.Workflow

open Workbench.Lib Workbench.Lib.DepthFirst

inductive PrimitiveKind
  | step
  | action
  | childWorkflow
  /-- with the handler that the step for each item names -/
  | map (innerOnFailure : Option String)
  | gate (thenBranch elseBranch : String)
  | loop (onExhausted : String)
  | awaitSignal (timeout : Option ℕ) (onTimeout : Option String)
  | sleep
  | onTrigger
  | escalation
  deriving DecidableEq, Repr

def PrimitiveKind.text : PrimitiveKind → String
  | step => "step"
  | action => "action"
  | childWorkflow => "childWorkflow"
  | map _ => "map"
  | gate .. => "gate"
  | loop _ => "loop"
  | awaitSignal .. => "awaitSignal"
  | sleep => "sleep"
  | onTrigger => "onTrigger"
  | escalation => "escalation"

/-- A failure of the kind can be routed. -/
def PrimitiveKind.isUnit (kind : PrimitiveKind) : Bool :=
  kind = .step || kind = .action || kind = .childWorkflow

structure Primitive where
  id : String
  kind : PrimitiveKind
  after : List String
  onFailure : Option String
  deriving DecidableEq, Repr

/-- The record of the steps, by their ids. -/
abbrev Steps := OrderedMap String Primitive

/-! ### The names -/

def refuse (bad : Prop) [Decidable bad] (message : String) : Except String Unit :=
  if bad then .error message else .ok ()

/-- Whether the step named as a target does not come after the step. -/
def isDetached (steps : Steps) (stepId target : String) : Bool :=
  (steps.get target).any fun primitive => stepId ∉ primitive.after

def validateAfter (steps : Steps) (stepId dep : String) : Except String Unit := do
  refuse (dep ∉ steps.keys)
    ("step " ++ stepId ++ " declares after " ++ dep ++ " which is not a known step")
  refuse (dep = stepId) ("step " ++ stepId ++ " cannot depend on itself")

def assertNoRoutableFailure (stepId : String) (primitive : Primitive) : Except String Unit := do
  refuse (primitive.onFailure ≠ none) (primitive.kind.text ++ " " ++ stepId ++
    " may not carry onFailure; onFailure is honored only on a step, action, or childWorkflow at " ++
    "a workflow root")
  match primitive.kind with
  | .map (some _) => .error ("map " ++ stepId ++
      " sets onFailure on its inner step; a map inner step is not a routing unit (a failed item " ++
      "is not routed in v1)")
  | _ => .ok ()

/-- What is asked of the target that a step of some kind routes to. -/
def validateTarget (steps : Steps) (subject stepId role target : String) : Except String Unit := do
  refuse (target ∉ steps.keys)
    (subject ++ " names " ++ role ++ " " ++ target ++ " which is not a known step")
  refuse (target = stepId) (subject ++ " cannot name itself as " ++ role)
  refuse (isDetached steps stepId target)
    (subject ++ " " ++ role ++ " " ++ target ++ " must name " ++ stepId ++ " in its after")

def validateKind (steps : Steps) (stepId : String) : PrimitiveKind → Except String Unit
  | .gate thenBranch elseBranch => do
    refuse (thenBranch ∉ steps.keys) ("gate " ++ stepId ++ " names then-branch " ++ thenBranch ++
      " which is not a known step")
    refuse (elseBranch ∉ steps.keys) ("gate " ++ stepId ++ " names else-branch " ++ elseBranch ++
      " which is not a known step")
    refuse (thenBranch = elseBranch) ("gate " ++ stepId ++ " has then === else (" ++ thenBranch ++
      "); the gate would be meaningless")
    refuse (thenBranch = stepId ∨ elseBranch = stepId)
      ("gate " ++ stepId ++ " cannot name itself as a branch")
  | .loop onExhausted =>
    validateTarget steps ("loop " ++ stepId) stepId "onExhausted" onExhausted
  | .awaitSignal timeout (some onTimeout) => do
    refuse (timeout = none) ("awaitSignal " ++ stepId ++ " names onTimeout " ++ onTimeout ++
      " but sets no timeout; onTimeout only routes when a timer fires")
    validateTarget steps ("awaitSignal " ++ stepId) stepId "onTimeout" onTimeout
  | _ => .ok ()

def validateFailure (steps : Steps) (stepId : String) (primitive : Primitive) :
    Except String Unit :=
  if primitive.kind.isUnit then
    match primitive.onFailure with
    | none => .ok ()
    | some onFailure => validateTarget steps (primitive.kind.text ++ " " ++ stepId) stepId
        "onFailure" onFailure
  else assertNoRoutableFailure stepId primitive

def validateAfterRefs (steps : Steps) : Except String Unit :=
  steps.entries.forM fun (stepId, primitive) => do
    primitive.after.forM (validateAfter steps stepId)
    validateKind steps stepId primitive.kind
    validateFailure steps stepId primitive

/-! ### The ways -/

/-- The steps that a step routes to. -/
def Primitive.targets (primitive : Primitive) : List String :=
  (match primitive.kind with
    | .gate thenBranch elseBranch => [thenBranch, elseBranch]
    | .loop onExhausted => [onExhausted]
    | .awaitSignal _ onTimeout => onTimeout.toList
    | _ => []) ++ primitive.onFailure.toList

/-- The edges of the steps, as they are added one after the other. -/
def dependencyEdges (steps : Steps) : List (String × String) :=
  steps.entries.flatMap fun (stepId, primitive) =>
    primitive.after.map (·, stepId) ++ primitive.targets.map (stepId, ·)

def addEdge (edges : Option (List String)) (edge : String × String) : List String :=
  edges.getD [] ++ [edge.2]

def buildDependencyAdjacency (steps : Steps) : OrderedMap String (List String) :=
  Grouping.collect Prod.fst addEdge .empty (dependencyEdges steps)

/-- The steps that an edge leads to from a step. -/
def dependents (steps : Steps) (node : String) : List String :=
  ((buildDependencyAdjacency steps).get node).getD []

def cycleMessage (cycle : List String) : String :=
  "workflow definition has a dependency cycle: " ++ " -> ".intercalate cycle

/-- A path goes along new edges, so that it is never out of fuel. -/
def validateAcyclic (steps : Steps) : Except String Unit :=
  match explore (dependents steps) (steps.keys.length + (dependencyEdges steps).length)
      steps.keys with
  | .ok _ => .ok ()
  | .error (.cycle cycle) => .error (cycleMessage cycle)
  | .error .fuel => .error "Maximum call stack size exceeded"

/-- A step with a handler, two steps after it, and one after either side. -/
def sampleSteps : Steps where
  entries := [("fetch", ⟨"fetch", .step, [], some "repair"⟩),
    ("repair", ⟨"repair", .action, ["fetch"], none⟩), ("use", ⟨"use", .step, ["fetch"], none⟩),
    ("show", ⟨"show", .step, ["use"], none⟩), ("join", ⟨"join", .step, ["use", "repair"], none⟩)]
  nodup := by decide

variable {steps : Steps} {a b : String}

lemma bind_ok {α ε : Type} {x : Except ε Unit} {y : Except ε α} {a : α} :
    (x >>= fun _ => y) = .ok a ↔ x = .ok () ∧ y = .ok a := by
  cases x <;> simp [bind, Except.bind]

lemma refuse_ok {bad : Prop} [Decidable bad] {message : String} :
    refuse bad message = .ok () ↔ ¬ bad := by
  unfold refuse
  split_ifs with h <;> simp [h]

lemma forM_ok {α ε : Type} {f : α → Except ε Unit} {as : List α} :
    as.forM f = .ok () ↔ ∀ a ∈ as, f a = .ok () := by
  induction as with
  | nil => simp [pure, Except.pure]
  | cons a as ih =>
    change (f a >>= fun _ => as.forM f) = .ok () ↔ _
    rw [bind_ok, ih, List.forall_mem_cons]

lemma validateTarget_ok {subject stepId role target : String}
    (h : validateTarget steps subject stepId role target = .ok ()) :
    ∃ primitive, steps.get target = some primitive ∧ stepId ∈ primitive.after := by
  simp only [validateTarget, bind_ok, refuse_ok, not_not] at h
  obtain ⟨hknown, -, hattached⟩ := h
  obtain ⟨primitive, hget⟩ := OrderedMap.mem_keys.1 hknown
  exact ⟨primitive, hget, by simpa [isDetached, hget] using hattached⟩

/-- What a step comes after, and what it routes to, are steps of the record. -/
structure WellReferenced (steps : Steps) : Prop where
  after : ∀ stepId primitive, steps.get stepId = some primitive → primitive.after ⊆ steps.keys
  onFailure : ∀ stepId primitive handlerId, steps.get stepId = some primitive →
    primitive.kind.isUnit → primitive.onFailure = some handlerId →
    ∃ handler, steps.get handlerId = some handler ∧ stepId ∈ handler.after
  onExhausted : ∀ stepId primitive target, steps.get stepId = some primitive →
    primitive.kind = .loop target →
    ∃ handler, steps.get target = some handler ∧ stepId ∈ handler.after
  onTimeout : ∀ stepId primitive timeout target, steps.get stepId = some primitive →
    primitive.kind = .awaitSignal timeout (some target) →
    ∃ handler, steps.get target = some handler ∧ stepId ∈ handler.after

lemma wellReferenced_of_validateAfterRefs (h : validateAfterRefs steps = .ok ()) :
    WellReferenced steps := by
  have hsteps : ∀ stepId primitive, steps.get stepId = some primitive →
      (∀ dep ∈ primitive.after, validateAfter steps stepId dep = .ok ()) ∧
        validateKind steps stepId primitive.kind = .ok () ∧
        validateFailure steps stepId primitive = .ok () := by
    intro stepId primitive hget
    have hentry := forM_ok.1 h (stepId, primitive) (OrderedMap.get_eq_some.1 hget)
    simpa only [bind_ok, forM_ok] using hentry
  refine ⟨?_, ?_, ?_, ?_⟩
  · intro stepId primitive hget dep hdep
    have hafter := (hsteps stepId primitive hget).1 dep hdep
    rw [validateAfter, bind_ok, refuse_ok] at hafter
    exact not_not.mp hafter.1
  · intro stepId primitive handlerId hget hunit hhandler
    have hfailure := (hsteps stepId primitive hget).2.2
    simp only [validateFailure, if_pos hunit, hhandler] at hfailure
    exact validateTarget_ok hfailure
  · intro stepId primitive target hget hkind
    have hloop := (hsteps stepId primitive hget).2.1
    rw [hkind] at hloop
    exact validateTarget_ok hloop
  · intro stepId primitive timeout target hget hkind
    have hawait := (hsteps stepId primitive hget).2.1
    rw [hkind, validateKind, bind_ok] at hawait
    exact validateTarget_ok hawait.2

lemma foldl_addEdge {edges : List (String × String)} {group : Option (List String)} :
    (edges.foldl (fun group edge => some (addEdge group edge)) group).getD [] =
      group.getD [] ++ edges.map Prod.snd := by
  induction edges generalizing group with
  | nil => simp
  | cons edge edges ih =>
    rw [List.foldl_cons, ih]
    simp [addEdge]

lemma dependents_eq : dependents steps a =
    ((dependencyEdges steps).filter (Prod.fst · = a)).map Prod.snd := by
  rw [dependents, buildDependencyAdjacency, Grouping.get_collect, foldl_addEdge]
  simp

lemma mem_dependents : b ∈ dependents steps a ↔ (a, b) ∈ dependencyEdges steps := by
  simp [dependents_eq]

lemma mem_dependencyEdges : (a, b) ∈ dependencyEdges steps ↔
    (∃ primitive, steps.get b = some primitive ∧ a ∈ primitive.after) ∨
      ∃ primitive, steps.get a = some primitive ∧ b ∈ primitive.targets := by
  simp only [dependencyEdges, List.mem_flatMap, List.mem_append, List.mem_map, Prod.mk.injEq,
    OrderedMap.get_eq_some]
  constructor
  · rintro ⟨⟨stepId, primitive⟩, hmem, ⟨dep, hdep, rfl, rfl⟩ | ⟨target, htarget, rfl, rfl⟩⟩
    · exact .inl ⟨primitive, hmem, hdep⟩
    · exact .inr ⟨primitive, hmem, htarget⟩
  · rintro (⟨primitive, hmem, hdep⟩ | ⟨primitive, hmem, htarget⟩)
    · exact ⟨(b, primitive), hmem, .inl ⟨a, hdep, rfl, rfl⟩⟩
    · exact ⟨(a, primitive), hmem, .inr ⟨b, htarget, rfl, rfl⟩⟩

/-- One end of an edge is a step. -/
lemma mem_keys_of_edge (h : Step (dependents steps) a b) : a ∈ steps.keys ∨ b ∈ steps.keys := by
  rcases mem_dependencyEdges.1 (mem_dependents.1 h) with ⟨primitive, hget, -⟩ |
    ⟨primitive, hget, -⟩
  · exact .inr (OrderedMap.mem_keys.2 ⟨primitive, hget⟩)
  · exact .inl (OrderedMap.mem_keys.2 ⟨primitive, hget⟩)

/-- **The search for cycles** finds one if there is one, and names one that is there. -/
theorem validateAcyclic_spec (steps : Steps) :
    (validateAcyclic steps = .ok () ∧ Acyclic (dependents steps)) ∨
      ∃ cycle, validateAcyclic steps = .error (cycleMessage cycle) ∧
        IsCycle (dependents steps) cycle := by
  let nodes := steps.keys ++ (dependencyEdges steps).map Prod.snd
  have hclosed : ∀ a ∈ nodes, dependents steps a ⊆ nodes := by
    intro a _ b hb
    exact List.mem_append_right _ (List.mem_map.mpr ⟨(a, b), mem_dependents.1 hb, rfl⟩)
  have hvisited := visited_explore hclosed (List.subset_append_left _ _)
    (show nodes.length ≤ steps.keys.length + (dependencyEdges steps).length by simp [nodes])
  unfold validateAcyclic
  cases hexplore : explore (dependents steps) (steps.keys.length + (dependencyEdges steps).length)
      steps.keys with
  | error stop =>
    rw [hexplore] at hvisited
    cases stop with
    | cycle cycle => exact .inr ⟨cycle, rfl, hvisited⟩
    | fuel => exact hvisited.elim
  | ok after =>
    rw [hexplore] at hvisited
    obtain ⟨hunderway, -, -, hkeys⟩ := hvisited
    have hnodup := (List.nodup_append.mp hunderway.nodup).2.1
    refine .inl ⟨rfl, ?_⟩
    intro a hcycle
    -- a cycle goes through a step, and no way leads from a settled step back to it
    obtain ⟨b, hstep, hback⟩ := Relation.TransGen.head'_iff.mp hcycle
    rcases mem_keys_of_edge hstep with ha | hb
    · exact hunderway.settled.acyclic hnodup (hkeys ha) hcycle
    · exact hunderway.settled.acyclic hnodup (hkeys hb) (.tail' hback hstep)

end Workbench.Workflow
