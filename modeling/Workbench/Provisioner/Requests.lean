import Workbench.Provisioner.Names
import Workbench.Provisioner.Store

/-!
The requests a provisioner answers, how it checks them, and the answers it gives.
-/

namespace Workbench.Provisioner

open Workbench.Lib

/-- A JavaScript number, as far as the validators look at it. -/
inductive JsNumber
  | integer (value : ℤ)
  /-- a fraction, an infinity or NaN -/
  | other
  deriving DecidableEq, Repr

def JsNumber.isInteger : JsNumber → Bool
  | .integer _ => true
  | .other => false

def JsNumber.isNegative : JsNumber → Bool
  | .integer value => value < 0
  | .other => false

def JsNumber.toNat : JsNumber → ℕ
  | .integer value => value.toNat
  | .other => 0

structure EnsureSidecarRequest where
  allocationId : String
  sidecarId : String
  generation : JsNumber
  token : String
  hubWebSocketUrl : String
  deriving DecidableEq, Repr

structure DestroySidecarRequest where
  allocationId : String
  sidecarId : String
  generation : JsNumber
  externalRef : Option String
  deriving DecidableEq, Repr

def validateEnsureRequest (request : EnsureSidecarRequest) : Option String :=
  if request.allocationId = "" then some "allocationId must not be empty"
  else if request.sidecarId = "" then some "sidecarId must not be empty"
  else if request.token = "" then some "token must not be empty"
  else if request.hubWebSocketUrl = "" then some "hubWebSocketUrl must not be empty"
  else if !request.generation.isInteger || request.generation.isNegative then
    some "generation must be a non-negative integer"
  else none

def validateDestroyRequest (request : DestroySidecarRequest) : Option String :=
  if request.allocationId = "" then some "allocationId must not be empty"
  else if request.sidecarId = "" then some "sidecarId must not be empty"
  else if !request.generation.isInteger || request.generation.isNegative then
    some "generation must be a non-negative integer"
  else none

/-- A call of the provisioner, by the request it was made with. -/
inductive Request
  | ensure (request : EnsureSidecarRequest)
  | destroy (request : DestroySidecarRequest)
  deriving DecidableEq, Repr

namespace Request

def allocationId : Request → String
  | ensure request => request.allocationId
  | destroy request => request.allocationId

/-- The generation of a request that passed its check. -/
def generation : Request → ℕ
  | ensure request => request.generation.toNat
  | destroy request => request.generation.toNat

def sidecarId : Request → String
  | ensure request => request.sidecarId
  | destroy request => request.sidecarId

def observeArgs (request : Request) : ObserveArgs :=
  ⟨request.allocationId, request.sidecarId, request.generation⟩

def unit (request : Request) : UnitId := ⟨request.allocationId, request.generation⟩

@[simp] lemma unit_allocationId (request : Request) :
    request.unit.allocationId = request.allocationId := rfl

@[simp] lemma unit_generation (request : Request) :
    request.unit.generation = request.generation := rfl

def isEnsure : Request → Bool
  | ensure _ => true
  | destroy _ => false

end Request

/-! ### Failures -/

/-- `ProvisionerOperationError`. -/
structure OperationError where
  code : String
  message : String
  retryable : Bool
  deriving DecidableEq, Repr

/-- An error from outside: its text, and the reference id it was reported under. -/
structure Failure where
  detail : String
  refId : String
  deriving DecidableEq, Repr

def operationalFailure (failure : Failure) (code message : String) : OperationError :=
  ⟨code, message ++ ": " ++ failure.detail ++ " (" ++ failure.refId ++ ")", true⟩

/-- How a call ends: the three results, or an error thrown to the caller. -/
inductive Result
  | accepted (externalRef : String)
  | rejected (error : OperationError)
  /-- destroyed, with the cleanup confirmed -/
  | confirmed
  | threw (message : String)
  deriving DecidableEq, Repr

def Result.hasThrown : Result → Bool
  | .threw _ => true
  | _ => false

def invalidAllocationId (allocationId : String) : OperationError :=
  ⟨"invalid_allocation_id", "allocationId \"" ++ allocationId ++
    "\" is not a valid directory name", false⟩

def invalidExternalRef (externalRef : String) : OperationError :=
  ⟨"invalid_external_ref", "external ref \"" ++ externalRef ++
    "\" is not <allocationId>:<generation>:<pid>", false⟩

def missingPath : OperationError :=
  ⟨"missing_path", "the hub process has no PATH to forward; " ++
    "a spawned sidecar cannot resolve its runtime", false⟩

def superseded (generation : ℕ) : OperationError :=
  ⟨"stale_generation", "Generation " ++ toString generation ++
    " was superseded while the unit was starting", false⟩

/-! ### What a sidecar is started with -/

/-- The variables of the hub process that a sidecar inherits. -/
structure HostEnv where
  path : Option String
  home : Option String
  tmpdir : Option String
  adapterManifest : Option String
  deriving DecidableEq, Repr

/-- `ProcessProvisionerConfig`, with the environment of the hub process. -/
structure Config where
  runtimePath : String
  sidecarEntryPath : Path
  allocationsDir : Path
  sidecarCredentialEncryptionKey : String
  env : HostEnv
  deriving DecidableEq, Repr

structure SpawnSidecarProcessArgs where
  command : List String
  cwd : Path
  env : List (String × String)
  deriving DecidableEq, Repr

def optionalVariable (name : String) : Option String → List (String × String)
  | some value => [(name, value)]
  | none => []

def sidecarEnvFor (cfg : Config) (request : EnsureSidecarRequest) (sidecarDataDir : Path) :
    Except OperationError (List (String × String)) :=
  match cfg.env.path with
  | none => .error missingPath
  | some path =>
    if path = "" then .error missingPath
    else .ok ([("SIDECAR_DATA_DIR", sidecarDataDir.render), ("HUB_WS_URL", request.hubWebSocketUrl),
      ("SIDECAR_ID", request.sidecarId), ("SIDECAR_TOKEN", request.token),
      ("SIDECAR_CREDENTIAL_ENCRYPTION_KEY", cfg.sidecarCredentialEncryptionKey), ("PATH", path)]
      ++ optionalVariable "HOME" cfg.env.home ++ optionalVariable "TMPDIR" cfg.env.tmpdir
      ++ optionalVariable "SIDECAR_ADAPTER_MANIFEST" cfg.env.adapterManifest)

/-- What `startUnit` does before its first await: the unit's directory and the arguments the
process will be spawned with. -/
def spawnArgsFor (cfg : Config) (request : EnsureSidecarRequest) :
    Except OperationError SpawnSidecarProcessArgs :=
  let unit : UnitId := ⟨request.allocationId, request.generation.toNat⟩
  if matchesAllocationIdPattern request.allocationId then
    match sidecarEnvFor cfg request
        (Path.resolve (unitDirOf cfg.allocationsDir unit) sidecarDataDirName) with
    | .ok env => .ok ⟨[cfg.runtimePath, cfg.sidecarEntryPath.render],
        Path.dirname cfg.sidecarEntryPath, env⟩
    | .error error => .error error
  else .error (invalidAllocationId request.allocationId)

/-- Whether a start gets as far as its first await depends on the allocation id and on the
hub's environment alone. -/
lemma spawnArgsFor_ok_iff {cfg : Config} {request : EnsureSidecarRequest} :
    (∃ args, spawnArgsFor cfg request = .ok args) ↔
      matchesAllocationIdPattern request.allocationId ∧ ∃ path, cfg.env.path = some path ∧
        path ≠ "" := by
  unfold spawnArgsFor sidecarEnvFor
  by_cases hm : matchesAllocationIdPattern request.allocationId
  · rcases hp : cfg.env.path with _ | path
    · simp [hm]
    · by_cases he : path = "" <;> simp [hm, he]
  · simp [hm]

end Workbench.Provisioner
