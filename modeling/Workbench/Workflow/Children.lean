import Mathlib.Data.List.Basic
import Workbench.Workflow.Takes

/-!
The child runs of a run, read off its log.
-/

namespace Workbench.Workflow

open Workbench.Lib

variable {π : Type} {runId childRunId : String} {log : List (WorkflowEvent π)} {s t : RunState π}
  {e : WorkflowEvent π} {body : EventBody π} {seq : ℤ}

/-- The child that is spawned, and the step that spawns it. -/
def EventBody.spawned : EventBody π → Option (String × String)
  | childSpawned stepId childRunId => some (childRunId, stepId)
  | _ => none

/-- The child that is told to cancel. -/
def EventBody.told : EventBody π → Option String
  | childCancelRequested childRunId => some childRunId
  | _ => none

/-- The child that ended, how it did, and whether it was torn down. -/
def EventBody.ended : EventBody π → Option (String × TerminalStatus × Bool)
  | childCompleted childRunId terminalStatus abortedTeardown =>
    some (childRunId, terminalStatus, abortedTeardown)
  | _ => none

def spawns (log : List (WorkflowEvent π)) : List (String × String) :=
  log.filterMap (·.body.spawned)

def tells (log : List (WorkflowEvent π)) : List String := log.filterMap (·.body.told)

def ends (log : List (WorkflowEvent π)) : List (String × TerminalStatus × Bool) :=
  log.filterMap (·.body.ended)

/-- What the log says of a child: the first entry of its end counts, and no later one. -/
def childOf (log : List (WorkflowEvent π)) (childRunId : String) : Option ChildState :=
  (OrderedMap.lookup childRunId (spawns log)).map fun stepId =>
    { childRunId := childRunId
      spawnedBy := stepId
      cancelRequested := childRunId ∈ tells log
      terminalStatus := (OrderedMap.lookup childRunId (ends log)).map Prod.fst
      abortedTeardown := ((OrderedMap.lookup childRunId (ends log)).map Prod.snd).getD false }

/-- The children of the state are those of the log. -/
structure ChildrenRead (log : List (WorkflowEvent π)) (s : RunState π) : Prop where
  /-- in the order they were spawned in, and each was spawned once -/
  keys : s.children.keys = (spawns log).map Prod.fst
  children : ∀ childRunId, s.children.get childRunId = childOf log childRunId
  told : ∀ childRunId ∈ tells log, childRunId ∈ s.children.keys
  ended : ∀ entry ∈ ends log, entry.1 ∈ s.children.keys

lemma lookup_append {κ ν : Type*} [DecidableEq κ] {k : κ} {es ds : List (κ × ν)} :
    OrderedMap.lookup k (es ++ ds) = (OrderedMap.lookup k es <|> OrderedMap.lookup k ds) := by
  induction es with
  | nil => rfl
  | cons e es ih =>
    obtain ⟨j, v⟩ := e
    rw [List.cons_append, OrderedMap.lookup, OrderedMap.lookup]
    split_ifs with hj
    · rfl
    · exact ih

lemma spawns_concat : spawns (log ++ [e]) = spawns log ++ e.body.spawned.toList := by
  rw [spawns, List.filterMap_append, ← spawns]
  cases hspawned : e.body.spawned <;> simp [hspawned]

lemma tells_concat : tells (log ++ [e]) = tells log ++ e.body.told.toList := by
  rw [tells, List.filterMap_append, ← tells]
  cases htold : e.body.told <;> simp [htold]

lemma ends_concat : ends (log ++ [e]) = ends log ++ e.body.ended.toList := by
  rw [ends, List.filterMap_append, ← ends]
  cases hended : e.body.ended <;> simp [hended]

/-- The entry has nothing to do with a child. -/
def EventBody.childless (body : EventBody π) : Prop :=
  body.spawned = none ∧ body.told = none ∧ body.ended = none

lemma childOf_of_childless (h : e.body.childless) :
    childOf (log ++ [e]) childRunId = childOf log childRunId := by
  obtain ⟨hspawned, htold, hended⟩ := h
  rw [childOf, childOf, spawns_concat, tells_concat, ends_concat, hspawned, htold, hended]
  simp

lemma children_of_childless (h : Takes s seq body t) (hbody : body.childless) :
    t.children = s.children := by
  obtain ⟨hspawned, htold, hended⟩ := hbody
  cases h with
  | childSpawned => cases hspawned
  | childCancelRequestedAgain | childCancelRequested => cases htold
  | childCompletedAgain | childCompleted => cases hended
  | awaitedQueued =>
    unfold takeQueued
    split <;> rfl
  | _ => rfl

lemma ChildrenRead.of_childless (h : ChildrenRead log s) (htakes : Takes s seq e.body t)
    (hbody : e.body.childless) : ChildrenRead (log ++ [e]) t := by
  have hchildren := children_of_childless htakes hbody
  obtain ⟨hspawned, htold, hended⟩ := hbody
  constructor
  · rw [hchildren, h.keys, spawns_concat, hspawned]
    simp
  · intro childRunId
    rw [hchildren, h.children, childOf_of_childless ⟨hspawned, htold, hended⟩]
  · rw [hchildren, tells_concat, htold]
    simpa using h.told
  · rw [hchildren, ends_concat, hended]
    simpa using h.ended

lemma ChildrenRead.lookup_ends_eq_none (h : ChildrenRead log s)
    (hnew : s.children.get childRunId = none) :
    OrderedMap.lookup childRunId (ends log) = none := by
  refine OrderedMap.lookup_eq_none.2 fun hmem => ?_
  obtain ⟨entry, hentry, rfl⟩ := List.mem_map.mp hmem
  obtain ⟨child, hget⟩ := OrderedMap.mem_keys.1 (h.ended entry hentry)
  rw [hnew] at hget
  cases hget

lemma ChildrenRead.spawned (h : ChildrenRead log s) {stepId : String}
    (hbody : e.body = .childSpawned stepId childRunId)
    (hnew : s.children.get childRunId = none) :
    ChildrenRead (log ++ [e]) { s with
      children := s.children.set childRunId ⟨childRunId, stepId, false, none, false⟩
      lastSeq := seq } := by
  have hkey : childRunId ∉ s.children.keys := by
    rw [OrderedMap.mem_keys]
    rintro ⟨child, hget⟩
    rw [hnew] at hget
    cases hget
  have hspawns : spawns (log ++ [e]) = spawns log ++ [(childRunId, stepId)] := by
    rw [spawns_concat, hbody]
    rfl
  have htells : tells (log ++ [e]) = tells log := by
    rw [tells_concat, hbody]
    exact List.append_nil _
  have hends : ends (log ++ [e]) = ends log := by
    rw [ends_concat, hbody]
    exact List.append_nil _
  have hkeys : (s.children.set childRunId ⟨childRunId, stepId, false, none, false⟩).keys =
      s.children.keys ++ [childRunId] := by
    rw [OrderedMap.keys, OrderedMap.set_of_not_mem hkey, List.map_append]
    rfl
  constructor
  · rw [hkeys, hspawns, List.map_append, ← h.keys]
    rfl
  · intro id
    rw [OrderedMap.get_set, childOf, hspawns, htells, hends, lookup_append]
    split_ifs with hid
    · subst hid
      have hfirst : OrderedMap.lookup id (spawns log) = none := by
        rw [OrderedMap.lookup_eq_none, ← h.keys]
        exact hkey
      have htold : id ∉ tells log := fun hmem => hkey (h.told id hmem)
      simp [hfirst, OrderedMap.lookup, htold, h.lookup_ends_eq_none hnew]
    · rw [h.children, childOf, OrderedMap.lookup, if_neg (Ne.symm hid), OrderedMap.lookup]
      simp
  · intro id hid
    rw [htells] at hid
    rw [hkeys]
    exact List.mem_append_left _ (h.told id hid)
  · intro entry hentry
    rw [hends] at hentry
    rw [hkeys]
    exact List.mem_append_left _ (h.ended entry hentry)

lemma mem_keys_of_get {ν : Type} {m : OrderedMap String ν} {k : String} {v : ν}
    (h : m.get k = some v) : k ∈ m.keys := OrderedMap.mem_keys.2 ⟨v, h⟩

/-- The child is told, for the first time or again. -/
lemma ChildrenRead.tell (h : ChildrenRead log s) {child : ChildState}
    (hbody : e.body = .childCancelRequested childRunId)
    (hget : s.children.get childRunId = some child) (hkeys : t.children.keys = s.children.keys)
    (hchildren : ∀ id, t.children.get id =
      if id = childRunId then some { child with cancelRequested := true } else s.children.get id) :
    ChildrenRead (log ++ [e]) t := by
  have hspawns : spawns (log ++ [e]) = spawns log := by
    rw [spawns_concat, hbody]
    exact List.append_nil _
  have htells : tells (log ++ [e]) = tells log ++ [childRunId] := by
    rw [tells_concat, hbody]
    rfl
  have hends : ends (log ++ [e]) = ends log := by
    rw [ends_concat, hbody]
    exact List.append_nil _
  constructor
  · rw [hkeys, hspawns, h.keys]
  · intro id
    rw [hchildren, childOf, hspawns, htells, hends]
    split_ifs with hid
    · subst hid
      have hread := hget.symm.trans (h.children id)
      cases hfirst : OrderedMap.lookup id (spawns log) with
      | none => simp [childOf, hfirst] at hread
      | some stepId =>
        rw [childOf, hfirst] at hread
        cases hread
        simp
    · rw [h.children, childOf]
      simp [hid]
  · rw [hkeys, htells]
    intro id hid
    rcases List.mem_append.mp hid with hid | hid
    · exact h.told id hid
    · obtain rfl := List.mem_singleton.mp hid
      exact mem_keys_of_get hget
  · rw [hkeys, hends]
    exact h.ended

/-- The child ends, for the first time or again. -/
lemma ChildrenRead.finish (h : ChildrenRead log s) {child child' : ChildState}
    {terminalStatus : TerminalStatus} {abortedTeardown : Bool}
    (hbody : e.body = .childCompleted childRunId terminalStatus abortedTeardown)
    (hget : s.children.get childRunId = some child) (hkeys : t.children.keys = s.children.keys)
    (hchildren : ∀ id, t.children.get id =
      if id = childRunId then some child' else s.children.get id)
    (hagain : child.terminalStatus ≠ none → child' = child)
    (hfirst : child.terminalStatus = none → child' = { child with
      terminalStatus := some terminalStatus
      abortedTeardown := abortedTeardown || child.abortedTeardown }) :
    ChildrenRead (log ++ [e]) t := by
  have hspawns : spawns (log ++ [e]) = spawns log := by
    rw [spawns_concat, hbody]
    exact List.append_nil _
  have htells : tells (log ++ [e]) = tells log := by
    rw [tells_concat, hbody]
    exact List.append_nil _
  have hends : ends (log ++ [e]) = ends log ++ [(childRunId, terminalStatus, abortedTeardown)] := by
    rw [ends_concat, hbody]
    rfl
  constructor
  · rw [hkeys, hspawns, h.keys]
  · intro id
    rw [hchildren, childOf, hspawns, htells, hends, lookup_append]
    split_ifs with hid
    · subst hid
      have hread := hget.symm.trans (h.children id)
      cases hspawn : OrderedMap.lookup id (spawns log) with
      | none => simp [childOf, hspawn] at hread
      | some stepId =>
        rw [childOf, hspawn] at hread
        cases hended : OrderedMap.lookup id (ends log) with
        | none =>
          rw [hended] at hread
          cases hread
          rw [hfirst rfl]
          simp [OrderedMap.lookup]
        | some entry =>
          rw [hended] at hread
          cases hread
          rw [hagain (by simp)]
          simp
    · rw [h.children, childOf, OrderedMap.lookup, if_neg (Ne.symm hid), OrderedMap.lookup]
      simp
  · rw [hkeys, htells]
    exact h.told
  · rw [hkeys, hends]
    intro entry hentry
    rcases List.mem_append.mp hentry with hentry | hentry
    · exact h.ended entry hentry
    · obtain rfl := List.mem_singleton.mp hentry
      exact mem_keys_of_get hget

lemma ChildrenRead.concat (h : ChildrenRead log s) (htakes : Takes s seq e.body t) :
    ChildrenRead (log ++ [e]) t := by
  have hsame {id : String} {child : ChildState} (hget : s.children.get id = some child)
      (j : String) : s.children.get j = if j = id then some child else s.children.get j := by
    split_ifs with hj
    · rw [hj, hget]
    · rfl
  by_cases hless : e.body.childless
  · exact h.of_childless htakes hless
  · generalize hbody : e.body = body at htakes hless
    cases htakes with
    | childSpawned _ hnew => exact h.spawned hbody hnew
    | @childCancelRequestedAgain id child hget hrequested =>
      have hchild : { child with cancelRequested := true } = child := by rw [← hrequested]
      refine h.tell hbody hget rfl fun j => ?_
      rw [hchild]
      exact hsame hget j
    | childCancelRequested hget =>
      exact h.tell hbody hget (OrderedMap.keys_set_of_mem (mem_keys_of_get hget))
        fun j => OrderedMap.get_set
    | childCompletedAgain hget hended =>
      exact h.finish hbody hget rfl (hsame hget) (fun _ => rfl) fun hnone => absurd hnone hended
    | childCompleted hget hlive =>
      exact h.finish hbody hget (OrderedMap.keys_set_of_mem (mem_keys_of_get hget))
        (fun j => OrderedMap.get_set) (fun hended => absurd hlive hended) fun _ => rfl
    | _ => exact absurd ⟨rfl, rfl, rfl⟩ hless

/-- **The children are those of the log**: each is spawned once, by the step it is recorded for, is
to cancel if it was ever told to, and ended as the first entry of its end says. -/
theorem childrenRead_of_resume (h : resumeFromLog runId log = .ok s) : ChildrenRead log s := by
  refine resume_history h ⟨rfl, fun _ => rfl, by simp [tells], by simp [ends]⟩ ?_
  intro log e s t _ _ htaken hread
  exact hread.concat htaken.takes

theorem childrenRead_sample : ∃ s, resumeFromLog "r" sampleLog = .ok s ∧
    ChildrenRead sampleLog s :=
  exists_resume_sample.imp fun _ h => ⟨h, childrenRead_of_resume h⟩

end Workbench.Workflow
