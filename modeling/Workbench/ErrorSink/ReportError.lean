import Mathlib.Logic.Relation
import Workbench.ErrorSink.RedactExtra

/-!
What becomes of a report.

A caught failure is copied with its causes, of which at most five are carried over, and the data of
its context is copied object by object. The data may be any graph of objects, and nothing bounds the
copy of it but the call stack: what does not fit on it throws, as does what cannot be read. All of
this is inside one `try`, so a report that cannot be made is lost.
-/

namespace Workbench.ErrorSink.Report

open Workbench.Lib

/-! ### What a program holds -/

/-- A value in the data of a context: a text, a reference to an object, or something that is copied
as it is. -/
inductive Value (R ν : Type) where
  | text (text : String)
  | null
  | bool (b : Bool)
  | number (n : ν)
  | object (ref : R)

inductive Node (R ν : Type) where
  | array (entries : List (Value R ν))
  | record (members : List (String × Value R ν))

/-- `Object.entries` -/
def Node.members {R ν : Type} : Node R ν → List (String × Value R ν)
  | .array entries => entries.mapIdx fun index value => (toString index, value)
  | .record members => members

/-- The objects; nothing is an object that throws when it is read. -/
abbrev Objects (R ν : Type) := R → Option (Node R ν)

/-- Something that was thrown: an error, or a value that `String` may make a text of. -/
inductive Thrown (E : Type) where
  | error (ref : E)
  | other (described : Option String)

inductive Stack where
  | absent
  | text (text : String)
  | unreadable

inductive Cause (E : Type) where
  | absent
  | value (thrown : Thrown E)
  | unreadable

/-- An error as it is read; its message is nothing if it is not a text, or throws. -/
structure ErrorObject (E : Type) where
  message : Option String
  stack : Stack
  cause : Cause E

abbrev Errors (E : Type) := E → ErrorObject E

structure ErrorContext (R : Type) where
  operation : String
  tenantId : Option String
  workbenchId : Option String
  agentId : Option String
  refId : Option String
  extra : Option R

/-- The schema of a context takes no empty text. -/
def ErrorContext.accepted {R : Type} (context : ErrorContext R) : Bool :=
  context.operation ≠ "" && [context.tenantId, context.workbenchId, context.agentId,
    context.refId].all fun text => text.all (· ≠ "")

inductive ErrorCopy where
  | mk (message : String) (stack : Option String) (cause : Option ErrorCopy)

structure LogEntry (ν : Type) where
  error : ErrorCopy
  refId : String
  operation : String
  tenantId : Option String
  workbenchId : Option String
  agentId : Option String
  extra : Option (List (String × Json ν))

/-! ### The report -/

section

variable {E R ν : Type} (errors : Errors E) (objects : Objects R ν)
  -- the stack of an error that is made on the spot
  (freshStack : String → String)

def unknownOperation : String := "unknown"

def maxCauseDepth : ℕ := 5

def asError : Thrown E → Option (ErrorObject E)
  | .error ref => some (errors ref)
  | .other described => described.map fun text => ⟨some text, .text (freshStack text), .absent⟩

def redactedStack : Stack → Option (Option String)
  | .absent => some none
  | .text text => some (some (redactText text))
  | .unreadable => none

/-- The copy of an error with so many of its causes. -/
def redactedCopyOf : ℕ → ErrorObject E → Option ErrorCopy
  | 0, error => do
    let message ← error.message
    let stack ← redactedStack error.stack
    return ⟨redactText message, stack, none⟩
  | links + 1, error => do
    let message ← error.message
    let stack ← redactedStack error.stack
    match error.cause with
    | .absent => return ⟨redactText message, stack, none⟩
    | .unreadable => none
    | .value thrown =>
      let cause ← asError errors freshStack thrown
      let copy ← redactedCopyOf links cause
      return ⟨redactText message, stack, some copy⟩

/-- The value under a key, copied with the call stack having room for so many values inside each
other. -/
def redactValue : ℕ → String → Value R ν → Option (Json ν)
  | 0, _, _ => none
  | room + 1, key, value =>
    if isSecretKey key then some redactedValue
    else
      match value with
      | .text text => some (.string (redactText text))
      | .null => some .null
      | .bool b => some (.bool b)
      | .number n => some (.number n)
      | .object ref =>
        match objects ref with
        | none => none
        | some (.array entries) => (entries.mapM (redactValue room key)).map .array
        | some (.record members) =>
          (members.mapM fun member => (redactValue room member.1 member.2).map
            (member.1, ·)).map fun redacted => .object (assigned redacted)

def redactRecord (room : ℕ) (node : Node R ν) : Option (List (String × Json ν)) :=
  (node.members.mapM fun member => (redactValue objects room member.1 member.2).map
    (member.1, ·)).map assigned

def redactExtra (room : ℕ) : Option R → Option (Option (List (String × Json ν)))
  | none => some none
  | some ref => ((objects ref).bind (redactRecord objects room)).map some

/-- The id that is returned, and what has been logged. -/
def reportError (room : ℕ) (generatedRefId : String) (thrown : Thrown E)
    (context : ErrorContext R) : String × List (LogEntry ν) :=
  let refId := context.refId.getD generatedRefId
  let safeContext := if context.accepted then some context else none
  let entry : Option (LogEntry ν) := do
    let extra ← redactExtra objects room (safeContext.bind (·.extra))
    let caught ← asError errors freshStack thrown
    let error ← redactedCopyOf errors freshStack maxCauseDepth caught
    return {
      error
      refId
      operation := (safeContext.map (·.operation)).getD unknownOperation
      tenantId := safeContext.bind (·.tenantId)
      workbenchId := safeContext.bind (·.workbenchId)
      agentId := safeContext.bind (·.agentId)
      extra }
  match entry with
  | some entry => (refId, [entry])
  | none => (context.refId.getD unknownOperation, [])

end

/-! ### What can be reported -/

section

variable {α E R ν : Type}

/-- So many steps away. -/
def Away (step : α → α → Prop) : ℕ → α → α → Prop
  | 0, a, b => a = b
  | n + 1, a, b => ∃ c, step a c ∧ Away step n c b

def CausedBy (errors : Errors E) (thrown cause : Thrown E) : Prop :=
  ∃ ref, thrown = .error ref ∧ (errors ref).cause = .value cause

/-- The message is a text, and the stack is one or is not there. -/
def Legible (errors : Errors E) : Thrown E → Prop
  | .error ref => (errors ref).message ≠ none ∧ (errors ref).stack ≠ .unreadable
  | .other described => described ≠ none

def CauseLegible (errors : Errors E) : Thrown E → Prop
  | .error ref => (errors ref).cause ≠ .unreadable
  | .other _ => True

/-- What was thrown and its next causes, as many as are carried over, can be read. -/
def ThrownLegible (errors : Errors E) (links : ℕ) (thrown : Thrown E) : Prop :=
  ∀ n ≤ links, ∀ cause, Away (CausedBy errors) n thrown cause →
    Legible errors cause ∧ (n < links → CauseLegible errors cause)

/-- What is copied with an object that stands under a key: the elements of an array are taken to
stand under its key. -/
def Node.inside (key : String) : Node R ν → List (String × Value R ν)
  | .array entries => entries.map (key, ·)
  | .record members => members

/-- The second value is copied inside the first. -/
def Below (objects : Objects R ν) (entry inner : String × Value R ν) : Prop :=
  isSecretKey entry.1 = false ∧ ∃ ref node, entry.2 = .object ref ∧ objects ref = some node ∧
    inner ∈ node.inside entry.1

def EntryLegible (objects : Objects R ν) (entry : String × Value R ν) : Prop :=
  isSecretKey entry.1 = false → ∀ ref, entry.2 = .object ref → objects ref ≠ none

/-- Nothing in it stands deeper than there is room for, and each object in it can be read. -/
def EntryFits (objects : Objects R ν) (room : ℕ) (entry : String × Value R ν) : Prop :=
  ∀ n inner, Away (Below objects) n entry inner → n < room ∧ EntryLegible objects inner

def ExtraFits (objects : Objects R ν) (room : ℕ) : Option R → Prop
  | none => True
  | some ref => ∃ node, objects ref = some node ∧ ∀ entry ∈ node.members,
      EntryFits objects room entry

/-- The call has returned the id of the context, or else the one that was made for it, and one entry
has been logged, with this id and the operation. -/
def Reported (generatedRefId : String) (context : ErrorContext R)
    (outcome : String × List (LogEntry ν)) : Prop :=
  outcome.1 = context.refId.getD generatedRefId ∧
    ∃ entry, outcome.2 = [entry] ∧ entry.refId = outcome.1 ∧ entry.operation = context.operation

end

variable {α β E R ν : Type} {errors : Errors E} {objects : Objects R ν}
  {freshStack : String → String} {room links : ℕ} {entry inner : String × Value R ν}
  {thrown : Thrown E} {context : ErrorContext R}

/-! ### The data -/

lemma isSome_mapM (l : List α) (f : α → Option β) :
    (l.mapM f).isSome ↔ ∀ a ∈ l, (f a).isSome := by
  induction l with
  | nil => simp
  | cons a l ih =>
    rw [List.mapM_cons, List.forall_mem_cons, ← ih]
    cases f a <;> cases l.mapM f <;> simp

lemma not_entryFits_zero : ¬ EntryFits objects 0 entry := fun h =>
  Nat.not_lt_zero 0 (h 0 entry rfl).1

/-- With room for one more, what is inside has to fit into the rest. -/
lemma entryFits_succ : EntryFits objects (room + 1) entry ↔
    EntryLegible objects entry ∧ ∀ inner, Below objects entry inner →
      EntryFits objects room inner := by
  constructor
  · intro h
    refine ⟨(h 0 entry rfl).2, fun inner hbelow n deep hdeep => ?_⟩
    obtain ⟨hlt, hlegible⟩ := h (n + 1) deep ⟨inner, hbelow, hdeep⟩
    exact ⟨Nat.succ_lt_succ_iff.mp hlt, hlegible⟩
  · rintro ⟨hlegible, hinner⟩ n deep hdeep
    cases n with
    | zero =>
      obtain rfl := hdeep
      exact ⟨Nat.succ_pos room, hlegible⟩
    | succ n =>
      obtain ⟨inner, hbelow, hdeep⟩ := hdeep
      obtain ⟨hlt, hdeepLegible⟩ := hinner inner hbelow n deep hdeep
      exact ⟨Nat.succ_lt_succ hlt, hdeepLegible⟩

lemma entryFits_of_secret (h : isSecretKey entry.1) : EntryFits objects (room + 1) entry := by
  refine entryFits_succ.2 ⟨fun hno => absurd h (by simp [hno]), fun inner hbelow => ?_⟩
  exact absurd h (by simp [hbelow.1])

lemma entryFits_of_plain (h : ∀ ref, entry.2 ≠ .object ref) :
    EntryFits objects (room + 1) entry := by
  refine entryFits_succ.2 ⟨fun _ ref href => absurd href (h ref), ?_⟩
  rintro inner ⟨-, ref, node, href, -⟩
  exact absurd href (h ref)

lemma entryFits_object {key : String} {ref : R} {node : Node R ν} (hkey : isSecretKey key = false)
    (hnode : objects ref = some node) : EntryFits objects (room + 1) (key, .object ref) ↔
      ∀ inner ∈ node.inside key, EntryFits objects room inner := by
  rw [entryFits_succ]
  constructor
  · rintro ⟨-, hinner⟩ inner hmem
    exact hinner inner ⟨hkey, ref, node, rfl, hnode, hmem⟩
  · intro hinner
    constructor
    · rintro - ref' ⟨⟩
      rw [hnode]
      exact Option.some_ne_none node
    · rintro inner ⟨-, ref', node', ⟨⟩, hnode', hmem⟩
      obtain rfl := Option.some.inj (hnode.symm.trans hnode')
      exact hinner inner hmem

/-- **A value is copied** exactly when it fits. -/
lemma isSome_redactValue :
    (redactValue objects room entry.1 entry.2).isSome ↔ EntryFits objects room entry := by
  induction room generalizing entry with
  | zero => exact iff_of_false (by simp [redactValue]) not_entryFits_zero
  | succ room ih =>
    obtain ⟨key, value⟩ := entry
    cases hkey : isSecretKey key with
    | true => exact iff_of_true (by simp [redactValue, hkey]) (entryFits_of_secret hkey)
    | false =>
      cases value with
      | object ref =>
        cases hnode : objects ref with
        | none =>
          refine iff_of_false (by simp [redactValue, hkey, hnode]) fun h => ?_
          exact (h 0 _ rfl).2 hkey ref rfl hnode
        | some node =>
          rw [entryFits_object hkey hnode]
          cases node with
          | array entries =>
            simp only [redactValue, hkey, Bool.false_eq_true, if_false, hnode, Option.isSome_map,
              isSome_mapM, Node.inside, List.forall_mem_map]
            exact forall₂_congr fun value _ => @ih (key, value)
          | record members =>
            simp only [redactValue, hkey, Bool.false_eq_true, if_false, hnode, Option.isSome_map,
              isSome_mapM, Node.inside]
            exact forall₂_congr fun member _ => @ih member
      | text | null | bool | number =>
        exact iff_of_true (by simp [redactValue, hkey]) (entryFits_of_plain (by simp))

lemma isSome_redactExtra (extra : Option R) :
    (redactExtra objects room extra).isSome ↔ ExtraFits objects room extra := by
  cases extra with
  | none => exact iff_of_true rfl trivial
  | some ref =>
    rw [redactExtra, ExtraFits, Option.isSome_map]
    cases hnode : objects ref with
    | none => simp
    | some node =>
      simp only [Option.bind_some, redactRecord, Option.isSome_map, isSome_mapM,
        Option.some.injEq, exists_eq_left']
      exact forall₂_congr fun entry _ => isSome_redactValue

/-! ### Data that is a tree -/

/-- The tree that a value is, if it is not deeper than that. -/
def treeOf (objects : Objects R ν) : ℕ → Value R ν → Option (Json ν)
  | 0, _ => none
  | _ + 1, .text text => some (.string text)
  | _ + 1, .null => some .null
  | _ + 1, .bool b => some (.bool b)
  | _ + 1, .number n => some (.number n)
  | depth + 1, .object ref =>
    match objects ref with
    | none => none
    | some (.array entries) => (entries.mapM (treeOf objects depth)).map .array
    | some (.record members) =>
      (members.mapM fun member => (treeOf objects depth member.2).map (member.1, ·)).map .object

section

variable {key : String} (h : ∀ key value tree, treeOf objects room value = some tree →
  redactValue objects room key value = some (ErrorSink.redactValue key tree))

include h

lemma mapM_redactEach {entries : List (Value R ν)} {trees : List (Json ν)}
    (htrees : entries.mapM (treeOf objects room) = some trees) :
    entries.mapM (redactValue objects room key) = some (redactEach key trees) := by
  induction entries generalizing trees with
  | nil =>
    obtain rfl : [] = trees := by simpa using htrees
    simp [redactEach]
  | cons value entries ih =>
    simp only [List.mapM_cons, Option.bind_eq_bind, Option.bind_eq_some_iff, Option.pure_def,
      Option.some.injEq] at htrees
    obtain ⟨tree, htree, rest, hrest, rfl⟩ := htrees
    rw [List.mapM_cons, h key value tree htree, ih hrest]
    rfl

lemma mapM_redactEntries {members : List (String × Value R ν)} {trees : List (String × Json ν)}
    (htrees : (members.mapM fun member => (treeOf objects room member.2).map (member.1, ·)) =
      some trees) :
    (members.mapM fun member => (redactValue objects room member.1 member.2).map (member.1, ·)) =
      some (redactEntries trees) := by
  induction members generalizing trees with
  | nil =>
    obtain rfl : [] = trees := by simpa using htrees
    simp [redactEntries]
  | cons member members ih =>
    simp only [List.mapM_cons, Option.bind_eq_bind, Option.bind_eq_some_iff, Option.pure_def,
      Option.some.injEq, Option.map_eq_some_iff] at htrees
    obtain ⟨_, ⟨tree, htree, rfl⟩, rest, hrest, rfl⟩ := htrees
    rw [List.mapM_cons, h member.1 member.2 tree htree, ih hrest]
    rfl

end

/-- **Data that is a tree** is redacted as the tree is. -/
theorem redactValue_of_treeOf {key : String} {value : Value R ν} {tree : Json ν}
    (h : treeOf objects room value = some tree) :
    redactValue objects room key value = some (ErrorSink.redactValue key tree) := by
  induction room generalizing key value tree with
  | zero => cases value <;> cases h
  | succ room ih =>
    have hrest : ∀ key value tree, treeOf objects room value = some tree →
        redactValue objects room key value = some (ErrorSink.redactValue key tree) :=
      fun _ _ _ htree => ih htree
    cases hkey : isSecretKey key with
    | true => cases tree <;> simp [redactValue, ErrorSink.redactValue, hkey]
    | false =>
      cases value with
      | text | null | bool | number =>
        obtain rfl := Option.some.inj h
        simp [redactValue, ErrorSink.redactValue, hkey]
      | object ref =>
        rw [treeOf] at h
        cases hnode : objects ref with
        | none => simp [hnode] at h
        | some node =>
          cases node with
          | array entries =>
            simp only [hnode] at h
            obtain ⟨trees, htrees, rfl⟩ := Option.map_eq_some_iff.mp h
            simp [redactValue, ErrorSink.redactValue, hkey, hnode, mapM_redactEach hrest htrees]
          | record members =>
            simp only [hnode] at h
            obtain ⟨trees, htrees, rfl⟩ := Option.map_eq_some_iff.mp h
            simp [redactValue, ErrorSink.redactValue, hkey, hnode, mapM_redactEntries hrest htrees]

/-! ### Data that refers back to itself -/

/-- From what stands inside itself one can go on for ever. -/
lemma exists_away_of_cycle {step : α → α → Prop} {a : α} (h : Relation.TransGen step a a) (n : ℕ) :
    ∃ b, Away step n a b := by
  induction n generalizing a with
  | zero => exact ⟨a, rfl⟩
  | succ n ih =>
    obtain ⟨c, hac, hca⟩ := Relation.TransGen.head'_iff.mp h
    obtain ⟨b, hb⟩ := ih (Relation.TransGen.tail' hca hac)
    exact ⟨b, c, hac, hb⟩

/-- It fits into no call stack. -/
lemma not_entryFits_of_cycle (h : Relation.TransGen (Below objects) entry entry) :
    ¬ EntryFits objects room entry := by
  intro hfits
  obtain ⟨inner, haway⟩ := exists_away_of_cycle h room
  exact Nat.lt_irrefl room (hfits room inner haway).1

/-! ### The error and its causes -/

lemma thrownLegible_zero : ThrownLegible errors 0 thrown ↔ Legible errors thrown := by
  constructor
  · exact fun h => (h 0 le_rfl thrown rfl).1
  · rintro h n hn cause haway
    obtain rfl := Nat.le_zero.mp hn
    obtain rfl := haway
    exact ⟨h, fun hlt => absurd hlt (Nat.lt_irrefl 0)⟩

lemma thrownLegible_succ : ThrownLegible errors (links + 1) thrown ↔
    Legible errors thrown ∧ CauseLegible errors thrown ∧
      ∀ cause, CausedBy errors thrown cause → ThrownLegible errors links cause := by
  constructor
  · intro h
    obtain ⟨hlegible, hcause⟩ := h 0 (Nat.zero_le _) thrown rfl
    refine ⟨hlegible, hcause (Nat.succ_pos links), fun cause hcaused n hn last haway => ?_⟩
    obtain ⟨hlegible, hlast⟩ := h (n + 1) (Nat.succ_le_succ hn) last ⟨cause, hcaused, haway⟩
    exact ⟨hlegible, fun hlt => hlast (Nat.succ_lt_succ hlt)⟩
  · rintro ⟨hlegible, hcause, hnext⟩ n hn last haway
    cases n with
    | zero =>
      obtain rfl := haway
      exact ⟨hlegible, fun _ => hcause⟩
    | succ n =>
      obtain ⟨cause, hcaused, haway⟩ := haway
      obtain ⟨hlast, hlastCause⟩ := hnext cause hcaused n (Nat.le_of_succ_le_succ hn) last haway
      exact ⟨hlast, fun hlt => hlastCause (Nat.lt_of_succ_lt_succ hlt)⟩

/-- The copy of what was thrown. -/
def copyOf (errors : Errors E) (freshStack : String → String) (links : ℕ) (thrown : Thrown E) :
    Option ErrorCopy :=
  (asError errors freshStack thrown).bind (redactedCopyOf errors freshStack links)

lemma isSome_redactedStack (stack : Stack) :
    (redactedStack stack).isSome ↔ stack ≠ .unreadable := by
  cases stack <;> simp [redactedStack]

/-- Of a value that is no error the copy needs a text only. -/
lemma isSome_copyOf_other (described : Option String) :
    (copyOf errors freshStack links (.other described)).isSome ↔ described ≠ none := by
  cases described with
  | none => simp [copyOf, asError]
  | some text => cases links <;> simp [copyOf, asError, redactedCopyOf, redactedStack]

/-- **An error is copied** exactly when it and the causes that are carried over can be read. -/
lemma isSome_copyOf :
    (copyOf errors freshStack links thrown).isSome ↔ ThrownLegible errors links thrown := by
  induction links generalizing thrown with
  | zero =>
    rw [thrownLegible_zero]
    cases thrown with
    | other described => exact isSome_copyOf_other described
    | error ref =>
      rw [Legible, ← isSome_redactedStack]
      cases hmessage : (errors ref).message <;> cases hstack : redactedStack (errors ref).stack <;>
        simp [copyOf, asError, redactedCopyOf, hmessage, hstack]
  | succ links ih =>
    rw [thrownLegible_succ]
    cases thrown with
    | other described =>
      rw [isSome_copyOf_other]
      simp [Legible, CauseLegible, CausedBy]
    | error ref =>
      have hcaused : (∀ cause, CausedBy errors (.error ref) cause →
          ThrownLegible errors links cause) ↔ ∀ cause, (errors ref).cause = .value cause →
            (copyOf errors freshStack links cause).isSome := by
        simp [CausedBy, ih]
      rw [hcaused, Legible, CauseLegible, ← isSome_redactedStack]
      cases hmessage : (errors ref).message <;> cases hstack : redactedStack (errors ref).stack <;>
        cases hcause : (errors ref).cause <;>
          simp [copyOf, asError, redactedCopyOf, hmessage, hstack, hcause, Option.isSome_bind]

/-! ### The report -/

lemma reportError_of_some {generatedRefId : String} (haccepted : context.accepted)
    {extra : Option (List (String × Json ν))} {copy : ErrorCopy}
    (hextra : redactExtra objects room context.extra = some extra)
    (hcopy : copyOf errors freshStack maxCauseDepth thrown = some copy) :
    reportError errors objects freshStack room generatedRefId thrown context =
      (context.refId.getD generatedRefId, [⟨copy, context.refId.getD generatedRefId,
        context.operation, context.tenantId, context.workbenchId, context.agentId, extra⟩]) := by
  obtain ⟨caught, hcaught, hcopy⟩ := Option.bind_eq_some_iff.mp hcopy
  simp [reportError, haccepted, hextra, hcaught, hcopy]

lemma reportError_of_none {generatedRefId : String} (haccepted : context.accepted)
    (h : redactExtra objects room context.extra = none ∨
      copyOf errors freshStack maxCauseDepth thrown = none) :
    reportError errors objects freshStack room generatedRefId thrown context =
      (context.refId.getD unknownOperation, []) := by
  rcases h with hextra | hcopy
  · simp [reportError, haccepted, hextra]
  · rw [copyOf] at hcopy
    cases hextra : redactExtra objects room context.extra with
    | none => simp [reportError, haccepted, hextra]
    | some extra =>
      cases hcaught : asError errors freshStack thrown with
      | none => simp [reportError, haccepted, hextra, hcaught]
      | some caught =>
        rw [hcaught, Option.bind_some] at hcopy
        simp [reportError, haccepted, hextra, hcaught, hcopy]

/-- **A report is made** exactly when what was thrown and its next five causes can be read, and the
data of the context can be read and is nowhere deeper than the call stack has room for. -/
theorem reported_iff (errors : Errors E) (objects : Objects R ν) (freshStack : String → String)
    (room : ℕ) (generatedRefId : String) (thrown : Thrown E) (context : ErrorContext R)
    (haccepted : context.accepted) :
    Reported generatedRefId context
        (reportError errors objects freshStack room generatedRefId thrown context) ↔
      ThrownLegible errors maxCauseDepth thrown ∧ ExtraFits objects room context.extra := by
  rw [← @isSome_copyOf E errors freshStack, ← isSome_redactExtra]
  cases hextra : redactExtra objects room context.extra with
  | none =>
    rw [reportError_of_none haccepted (.inl hextra)]
    exact iff_of_false (by simp [Reported]) (by simp)
  | some extra =>
    cases hcopy : copyOf errors freshStack maxCauseDepth thrown with
    | none =>
      rw [reportError_of_none haccepted (.inr hcopy)]
      exact iff_of_false (by simp [Reported]) (by simp)
    | some copy =>
      rw [reportError_of_some haccepted hextra hcopy]
      exact iff_of_true (by simp [Reported]) ⟨rfl, rfl⟩

/-- An error that is its own cause. -/
def selfCaused : Errors Unit := fun _ => ⟨some "no route", .text "at dial", .value (.error ())⟩

def plainContext (extra : Option Unit) : ErrorContext Unit :=
  ⟨"install", some "acme", none, none, none, extra⟩

theorem reported_iff_selfCaused : Reported "m1-x" (plainContext none)
    (reportError selfCaused (fun _ => (none : Option (Node Unit ℕ))) id 1 "m1-x" (.error ())
      (plainContext none)) := by
  refine (reported_iff selfCaused _ id 1 "m1-x" (.error ()) (plainContext none)
    (by decide)).mpr ⟨fun n _ cause haway => ?_, trivial⟩
  have hself : ∀ m cause, Away (CausedBy selfCaused) m (.error ()) cause → cause = .error () := by
    intro m
    induction m with
    | zero => exact fun _ h => h.symm
    | succ m ih =>
      rintro cause ⟨next, ⟨_, -, hnext⟩, haway⟩
      obtain rfl := Cause.value.inj hnext
      exact ih cause haway
  obtain rfl := hself n cause haway
  exact ⟨⟨Option.some_ne_none _, nofun⟩, fun _ => nofun⟩

/-- A record that holds itself. -/
def selfHeld : Objects Unit ℕ := fun _ => some (.record [("self", .object ())])

/-- **A report is lost** with data that refers back to itself, however much room there is. -/
theorem selfHeld_is_lost : (plainContext (some ())).accepted ∧
    ∀ room, reportError selfCaused selfHeld id room "m1-x" (.error ()) (plainContext (some ())) =
        ("unknown", []) ∧
      ¬ Reported "m1-x" (plainContext (some ()))
        (reportError selfCaused selfHeld id room "m1-x" (.error ()) (plainContext (some ()))) := by
  have haccepted : (plainContext (some ())).accepted := by decide
  have hkey : isSecretKey "self" = false := by decide +kernel
  refine ⟨haccepted, fun room => ?_⟩
  have hcycle : Relation.TransGen (Below selfHeld) ("self", .object ()) ("self", .object ()) :=
    .single ⟨hkey, (), _, rfl, rfl, List.mem_singleton.mpr rfl⟩
  have hnone : redactExtra selfHeld room (some ()) = none := by
    rw [← Option.not_isSome_iff_eq_none, isSome_redactExtra]
    rintro ⟨node, ⟨⟩, hfits⟩
    exact not_entryFits_of_cycle hcycle (hfits _ (List.mem_singleton.mpr rfl))
  rw [reportError_of_none haccepted (.inl hnone)]
  exact ⟨rfl, by simp [Reported]⟩

end Workbench.ErrorSink.Report
