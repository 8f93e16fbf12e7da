import Workbench.Provisioner.World

/-!
One call of `ensure` or `destroy`, from one await to the next.

The phase of a call names the await it stands at; the reply is how the awaited operation ends.
`advance` is the code that runs from there to the next await: the next phase, and the changes
made on the way.
-/

namespace Workbench.Provisioner

open Workbench.Lib

/-- Why units are stopped: what an ensure keeps is one of them, a unit that could not be
recorded is stopped by its own ensure, and a destroy stops all it resolved. -/
inductive Purpose
  | sweep (keepExternalRef : String)
  | superseded
  | destroy
  deriving DecidableEq, Repr

/-- What follows `terminate`: the rest of `stopUnit`, or the end of a start whose pid file
could not be written. -/
inductive AfterTerminate
  | stop (purpose : Purpose) (rest : List String)
  | abandon (failure : Failure)
  deriving DecidableEq, Repr

inductive Phase
  /-- an ensure behind the one in flight -/
  | chained (on : ℕ)
  /-- in `observeEnsure` or `observeDestroy` -/
  | observing
  /-- in the `mkdir` of `startUnit` -/
  | making (args : SpawnSidecarProcessArgs)
  | writingPid (pid : ℕ)
  /-- about to terminate a process whose pid file could not be written -/
  | abandoning (failure : Failure) (pid : ℕ)
  /-- in `recordUnit`, with the reference of this pid -/
  | recording (pid : ℕ)
  /-- in the `readdir` of `findUnitsByAllocation` -/
  | listing (purpose : Purpose)
  /-- in its loop, at the first of the entries -/
  | reading (purpose : Purpose) (entries refs : List String)
  /-- at the start of `stopUnit` -/
  | stopping (purpose : Purpose) (ref : String) (rest : List String)
  /-- in the loop of `terminate`, after `SIGTERM` -/
  | terminating (after : AfterTerminate) (target : UnitRef)
  /-- in the `rm` of `stopUnit` -/
  | removing (purpose : Purpose) (target : UnitRef) (rest : List String)
  /-- in its `rmdir` -/
  | removingParent (purpose : Purpose) (target : UnitRef) (rest : List String)
  | returned (result : Result)
  deriving DecidableEq, Repr

structure Call where
  request : Request
  phase : Phase
  deriving DecidableEq, Repr

/-- How the operation a call awaits ends. -/
inductive Reply
  /-- the store operation succeeded, at this time -/
  | stored (now : String)
  /-- the store operation rejected, before or after its rename took effect -/
  | storeFailed (now : String) (written : Bool) (failure : Failure)
  /-- the data directory was made and the process started -/
  | spawned (pid : ℕ)
  | mkdirFailed (failure : Failure)
  | spawnFailed (failure : Failure)
  | listed (names : List String)
  /-- a poll of `terminate`, before or after its deadline -/
  | polled (expired : Bool)
  | done
  | failed (failure : Failure)
  deriving DecidableEq, Repr

def Reply.isFailure : Reply → Bool
  | .storeFailed .. | .mkdirFailed _ | .spawnFailed _ | .failed _ => true
  | _ => false

section

variable (cfg : Config) (w : World) (request : Request)

/-- What a call returns when all units it had to stop are stopped. -/
def finished : Purpose → Result
  | .sweep keepExternalRef => .accepted keepExternalRef
  | .superseded => .rejected (superseded request.generation)
  | .destroy => .confirmed

def continueStops (purpose : Purpose) : List String → Phase
  | [] => .returned (finished request purpose)
  | ref :: rest => .stopping purpose ref rest

/-- A unit could not be stopped: a sweep reports it and goes on, the others end. -/
def stopFailed (purpose : Purpose) (error : OperationError) (rest : List String) : Phase :=
  match purpose with
  | .sweep _ => continueStops request purpose rest
  | .superseded => .returned (.threw error.message)
  | .destroy => .returned (.rejected error)

def enterListing (purpose : Purpose) : Phase :=
  if matchesAllocationIdPattern request.allocationId then .listing purpose
  else .returned (.threw (invalidAllocationId request.allocationId).message)

/-- The units to stop among those found. -/
def select : Purpose → List String → List String
  | .sweep keepExternalRef, refs => refs.filter (· ≠ keepExternalRef)
  | .superseded, refs => refs
  | .destroy, refs => refs.eraseDups

def continueReading (purpose : Purpose) (refs : List String) : List String → Phase
  | [] => continueStops request purpose (select purpose refs)
  | entry :: entries => .reading purpose (entry :: entries) refs

/-- The references found so far, after one more entry of the allocation's directory. -/
def readEntry (refs : List String) (entry : String) : List String :=
  match generationOf entry, w.readPidFile (request.allocationId, entry) with
  | some generation, some pid =>
    if w.isAlive pid then refs ++ [externalRefOf request.allocationId generation pid] else refs
  | _, _ => refs

def afterTerminate (after : AfterTerminate) (target : UnitRef) : Phase :=
  match after with
  | .abandon failure => .returned (.rejected (operationalFailure failure "pid_file_write_failed"
      ("unable to record pid " ++ toString target.pid ++ " for allocation " ++
        request.allocationId)))
  | .stop purpose rest =>
    if matchesAllocationIdPattern target.unit.allocationId then .removing purpose target rest
    else stopFailed request purpose (invalidAllocationId target.unit.allocationId) rest

def terminateFailed (after : AfterTerminate) (target : UnitRef) (failure : Failure) : Phase :=
  match after with
  | .abandon _ => .returned (.rejected ⟨"start_unit_failed", failure.detail, true⟩)
  | .stop purpose rest => stopFailed request purpose (operationalFailure failure
      "sidecar_terminate_failed" ("unable to terminate pid " ++ toString target.pid)) rest

/-- `terminate` up to its first await. -/
def terminateStart (after : AfterTerminate) (target : UnitRef) : Phase × List Change :=
  if w.isAlive target.pid then
    (.terminating after target, [.signal target.unit target.pid .sigterm])
  else (afterTerminate request after target, [])

def afterObserveEnsure (ensure : EnsureSidecarRequest) : ObserveResult → Phase
  | .rejected code message => .returned (.rejected ⟨code.text, message, false⟩)
  | .observed record =>
    match record.externalRef with
    | some externalRef => enterListing request (.sweep externalRef)
    | none =>
      match spawnArgsFor cfg ensure with
      | .ok args => .making args
      | .error error => .returned (.rejected error)

def afterObserveDestroy (destroy : DestroySidecarRequest) : ObserveResult → Phase
  | .rejected code message => .returned (.rejected ⟨code.text, message, false⟩)
  | .observed record =>
    match destroy.externalRef, record.externalRef with
    | some externalRef, _ => continueStops request .destroy [externalRef]
    | none, some externalRef => continueStops request .destroy [externalRef]
    | none, none => enterListing request .destroy

def externalRefOfPid (pid : ℕ) : String :=
  externalRefOf request.allocationId request.generation pid

def afterRecordUnit (pid : ℕ) (recorded : Bool) : Phase :=
  if recorded then enterListing request (.sweep (externalRefOfPid request pid))
  else continueStops request .superseded [externalRefOfPid request pid]

def recordUnitArgs (pid : ℕ) : RecordUnitArgs :=
  ⟨request.allocationId, request.generation, externalRefOfPid request pid⟩

def persistChanges (acknowledged : Bool) : Option AllocationRecord → List Change
  | some record => [.persist record acknowledged]
  | none => []

/-- The operation of the store that a call awaits. -/
def pendingOp : Phase → Option StoreOp
  | .observing =>
    match request with
    | .ensure _ => some (.observeEnsure request.observeArgs)
    | .destroy _ => some (.observeDestroy request.observeArgs)
  | .recording pid => some (.recordUnit (recordUnitArgs request pid))
  | _ => none

def advanceStore (now : String) : Phase → Option Phase
  | .observing =>
    match request with
    | .ensure ensure => some (afterObserveEnsure cfg request ensure
        (observeEnsure now w.records request.observeArgs).1)
    | .destroy destroy => some (afterObserveDestroy request destroy
        (observeDestroy now w.records request.observeArgs).1)
  | .recording pid =>
    some (afterRecordUnit request pid (recordUnit now w.records (recordUnitArgs request pid)).1)
  | _ => none

/-- From one await of a call to the next. -/
def advance : Phase → Reply → Option (Phase × List Change)
  | phase, .stored now =>
    match pendingOp request phase, advanceStore cfg w request now phase with
    | some op, some next => some (next, persistChanges true (op.decide now w.records).2)
    | _, _ => none
  | phase, .storeFailed now written failure =>
    (pendingOp request phase).map fun op => (.returned (.threw failure.detail),
      if written then persistChanges false (op.decide now w.records).2 else [])
  | .making args, .spawned pid =>
    if pid = 0 ∨ w.isAlive pid then none
    else some (.writingPid pid, [.makeUnitDir request.unit, .spawn request.unit args pid])
  | .making _, .mkdirFailed failure =>
    some (.returned (.rejected (operationalFailure failure "allocation_dir_failed"
      ("unable to create unit directory " ++
        (unitDirOf cfg.allocationsDir request.unit).render))), [])
  | .making _, .spawnFailed failure =>
    some (.returned (.rejected (operationalFailure failure "sidecar_spawn_failed"
      ("unable to spawn " ++ cfg.sidecarEntryPath.render))), [.makeUnitDir request.unit])
  | .writingPid pid, .done =>
    if w.units.has (unitDirKey request.unit) then
      some (.recording pid, [.writePidFile request.unit pid])
    else none
  | .writingPid pid, .failed failure => some (.abandoning failure pid, [])
  | .abandoning failure pid, .done =>
    some (terminateStart w request (.abandon failure) ⟨request.unit, pid⟩)
  | .abandoning failure pid, .failed failure' =>
    some (terminateFailed request (.abandon failure) ⟨request.unit, pid⟩ failure', [])
  | .listing purpose, .listed names =>
    if names.Perm (w.entriesOf request.allocationId) then
      some (continueReading request purpose [] names, [])
    else none
  | .listing _, .failed failure =>
    some (.returned (.threw (operationalFailure failure "allocation_dir_read_failed"
      ("unable to list units under " ++
        (allocationDirOf cfg.allocationsDir request.allocationId).render)).message), [])
  | .reading purpose (entry :: entries) refs, .done =>
    some (continueReading request purpose (readEntry w request refs entry) entries, [])
  | .reading _ (entry :: _) _, .failed failure =>
    some (.returned (.threw (operationalFailure failure "pid_file_read_failed"
      ("unable to read the pid file under " ++
        (entryPath cfg.allocationsDir (request.allocationId, entry)).render)).message), [])
  | .stopping purpose ref rest, .done =>
    match parseExternalRef ref with
    | none => some (stopFailed request purpose (invalidExternalRef ref) rest, [])
    | some target => some (terminateStart w request (.stop purpose rest) target)
  | .stopping purpose ref rest, .failed failure =>
    match parseExternalRef ref with
    | none => some (stopFailed request purpose (invalidExternalRef ref) rest, [])
    | some target => some (terminateFailed request (.stop purpose rest) target failure, [])
  | .terminating after target, .polled expired =>
    if w.isAlive target.pid then
      if expired then
        some (afterTerminate request after target, [.signal target.unit target.pid .sigkill])
      else some (.terminating after target, [])
    else some (afterTerminate request after target, [])
  | .terminating after target, .failed failure =>
    some (terminateFailed request after target failure, [])
  | .removing purpose target rest, .done =>
    some (.removingParent purpose target rest, [.removeUnitDir target.unit])
  | .removing purpose target rest, .failed failure
  | .removingParent purpose target rest, .failed failure =>
    some (stopFailed request purpose (operationalFailure failure "allocation_dir_cleanup_failed"
      ("unable to remove unit directory " ++
        (unitDirOf cfg.allocationsDir target.unit).render)) rest, [])
  | .removingParent purpose target rest, .done =>
    some (continueStops request purpose rest, [.removeAllocationDir target.unit.allocationId])
  | _, _ => none

end

end Workbench.Provisioner
