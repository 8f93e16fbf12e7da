import Workbench.Lib.Transition
import Workbench.Provisioner.Calls

/-!
The provisioner as a transition system: any number of calls, interleaved at their awaits, on a
host whose processes come and go, and a hub that can crash and start again.

Operations of the store take effect in any order here; the queue of the store, which keeps them
in the order of the calls, is in `StateStore`.
-/

namespace Workbench.Provisioner

open Workbench.Lib Workbench.Lib.Transition

structure State where
  world : World
  /-- the calls made since the hub started -/
  calls : ℕ → Option Call
  inFlightEnsures : String → Option ℕ

inductive Event
  /-- a new call of `ensure` or `destroy` -/
  | call (c : ℕ) (request : Request)
  /-- the `clear` callback of the ensure in flight -/
  | clear (c : ℕ)
  /-- the callback of `inFlight.then` -/
  | resume (c : ℕ)
  /-- the operation a call awaits ends -/
  | reply (c : ℕ) (reply : Reply)
  /-- a process exits -/
  | exit (pid : ℕ)
  /-- a process starts that the provisioner did not spawn -/
  | start (pid : ℕ)
  /-- the hub crashes and starts again -/
  | restart
  deriving DecidableEq, Repr

/-- `ensureOnce` up to its first await. -/
def startEnsure (request : EnsureSidecarRequest) : Phase :=
  match validateEnsureRequest request with
  | some message => .returned (.rejected ⟨"invalid_ensure_request", message, false⟩)
  | none => .observing

/-- `destroy` up to its first await. -/
def startDestroy (request : DestroySidecarRequest) : Phase :=
  match validateDestroyRequest request with
  | some message => .returned (.rejected ⟨"invalid_destroy_request", message, false⟩)
  | none => .observing

namespace State

def setCall (s : State) (c : ℕ) (call : Call) : State :=
  { s with calls := Function.update s.calls c (some call) }

def setWorld (s : State) (w : World) : State := { s with world := w }

/-- A process ends or begins. -/
def setProcess (s : State) (pid : ℕ) (process : Option Process) : State :=
  { s with world :=
    { s.world with processes := Function.update s.world.processes pid process } }

/-- The hub forgets its calls and reads the state file again. -/
def restart (s : State) : State where
  world := { s.world with records := s.world.file }
  calls := fun _ => none
  inFlightEnsures := fun _ => none

end State

/-- `ensure`: run at once and register as the one in flight, or chain onto that one. -/
def callEnsure (s : State) (c : ℕ) (request : EnsureSidecarRequest) : State :=
  match s.inFlightEnsures request.allocationId with
  | some inFlight => s.setCall c ⟨.ensure request, .chained inFlight⟩
  | none =>
    { s.setCall c ⟨.ensure request, startEnsure request⟩ with
      inFlightEnsures := Function.update s.inFlightEnsures request.allocationId (some c) }

def callProvisioner (s : State) (c : ℕ) : Request → State
  | .ensure request => callEnsure s c request
  | .destroy request => s.setCall c ⟨.destroy request, startDestroy request⟩

/-- `clear`, once the operation has settled. -/
def clear (s : State) (c : ℕ) : Option State :=
  match s.calls c with
  | some ⟨.ensure request, .returned _⟩ =>
    if s.inFlightEnsures request.allocationId = some c then
      some { s with
        inFlightEnsures := Function.update s.inFlightEnsures request.allocationId none }
    else none
  | _ => none

/-- A chained ensure goes on when the one it waits for has settled, after `clear`, which was
registered first; it throws what that one threw. -/
def resume (s : State) (c : ℕ) : Option State :=
  match s.calls c with
  | some ⟨.ensure request, .chained on⟩ =>
    match s.calls on with
    | some ⟨_, .returned result⟩ =>
      if s.inFlightEnsures request.allocationId = some on then none
      else some (s.setCall c ⟨.ensure request,
        if result.hasThrown then .returned result else startEnsure request⟩)
    | _ => none
  | _ => none

def reply (cfg : Config) (s : State) (c : ℕ) (r : Reply) : Option State :=
  match s.calls c with
  | some ⟨request, phase⟩ =>
    (advance cfg s.world request phase r).map fun (next, changes) =>
      (s.setCall c ⟨request, next⟩).setWorld (s.world.applyAll cfg.allocationsDir changes)
  | none => none

def step (cfg : Config) (s : State) : Event → Option State
  | .call c request => if (s.calls c).isSome then none else some (callProvisioner s c request)
  | .clear c => clear s c
  | .resume c => resume s c
  | .reply c r => reply cfg s c r
  | .exit pid => if s.world.isAlive pid then some (s.setProcess pid none) else none
  | .start pid =>
    if pid = 0 ∨ s.world.isAlive pid then none else some (s.setProcess pid (some .foreign))
  | .restart => some s.restart

/-- What the provisioner does in a step: the changes the replied call makes. -/
def actionsOf (cfg : Config) (s : State) : Event → List Change
  | .reply c r =>
    match s.calls c with
    | some ⟨request, phase⟩ => ((advance cfg s.world request phase r).map Prod.snd).getD []
    | none => []
  | _ => []

/-- A hub that starts for the first time, on a host with any processes of its own. -/
structure Initial (s : State) : Prop where
  calls : ∀ c, s.calls c = none
  inFlight : ∀ a, s.inFlightEnsures a = none
  records : s.world.records = .empty
  file : s.world.file = .empty
  units : s.world.units = .empty
  processes : ∀ pid process, s.world.processes pid = some process → process = .foreign

lemma Initial.no_call {s : State} (h : Initial s) (c : ℕ) (call : Call) :
    s.calls c ≠ some call := by
  simp [h.calls]

lemma Initial.no_sidecar {s : State} (h : Initial s) (pid : ℕ) (unit : UnitId) :
    s.world.processes pid ≠ some (.sidecar unit) := by
  intro hp
  simpa using h.processes pid _ hp

/-- The first state on a host where no process runs. -/
def idle : State where
  world := ⟨fun _ => none, .empty, .empty, .empty⟩
  calls := fun _ => none
  inFlightEnsures := fun _ => none

lemma initial_idle : Initial idle where
  calls _ := rfl
  inFlight _ := rfl
  records := rfl
  file := rfl
  units := rfl
  processes _ _ h := by simp [idle] at h

/-! ### A host to run examples on -/

def sampleConfig : Config where
  runtimePath := "/usr/bin/bun"
  sidecarEntryPath := ["opt", "sidecar", "index.ts"]
  allocationsDir := ["data", "allocations"]
  sidecarCredentialEncryptionKey := "key"
  env := ⟨some "/usr/bin", none, none, none⟩

def ensureOf (allocationId : String) (generation : ℕ) : Request :=
  .ensure ⟨allocationId, "sidecar", .integer generation, "token", "ws://hub"⟩

def destroyOf (allocationId : String) (generation : ℕ) (externalRef : Option String) : Request :=
  .destroy ⟨allocationId, "sidecar", .integer generation, externalRef⟩

def outage : Failure := ⟨"ENOSPC", "ref"⟩

/-- The states the system can be in when every step meets a guard. -/
def Reachable (cfg : Config) (guard : State → Event → Prop) (s : State) : Prop :=
  ∃ s₀, Initial s₀ ∧ Reach (step cfg) guard s₀ s

/-! ### What a step can do -/

variable {cfg : Config} {s t : State} {c : ℕ} {r : Reply}

/-- **A reply** is one advance of the replied call and the changes it makes. -/
lemma reply_cases (h : step cfg s (.reply c r) = some t) :
    ∃ request phase next changes, s.calls c = some ⟨request, phase⟩ ∧
      advance cfg s.world request phase r = some (next, changes) ∧
      actionsOf cfg s (.reply c r) = changes ∧
      t = (s.setCall c ⟨request, next⟩).setWorld
        (s.world.applyAll cfg.allocationsDir changes) := by
  simp only [step, reply] at h
  split at h
  · rename_i request phase hc
    rw [Option.map_eq_some_iff] at h
    obtain ⟨⟨next, changes⟩, ha, rfl⟩ := h
    exact ⟨request, phase, next, changes, hc, ha, by simp [actionsOf, hc, ha], rfl⟩
  · simp at h

end Workbench.Provisioner
