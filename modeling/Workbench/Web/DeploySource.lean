import Workbench.Web.AgentDeploy
import Workbench.Web.HubCredential
import Workbench.Web.InstallPackage
import Workbench.Web.McpEnsure

/-!
The deploys of an agent's source: of a hand-authored agent, and of the default worker.

Both hand a tree to the install, and the tree is rendered when the asset is there: the credential
that it names is made for the asset. What else is asked of the hub, and of other tenants, is done by
programs that are parameters.
-/

namespace Workbench.Web

open Workbench.Lib
open Workbench.Worker (McpServerDeployment InferencePreference WorkerWorkflowInput
  renderWorkerSourceTree workerWorkflowId)

/-! ### Offerings -/

structure CatalogOffering where
  offeringId : String
  plugin : String
  priority : ℤ
  deriving DecidableEq, Repr

structure ResolvedModel where
  canonicalName : String
  offerings : List CatalogOffering
  deriving DecidableEq, Repr

structure ExistingOffering (ν : Type) where
  sourceOfferingIds : List String
  defaultSourceOfferingId : String
  declaredSources : List (InferencePreference ν)

/-- The offering that a workspace has: its sources in the order of their priorities. -/
def resolveExistingOffering {ν : Type} (models : List ResolvedModel) :
    Option (ExistingOffering ν) :=
  let offerings := (models.flatMap fun model => model.offerings.map fun offering =>
    (offering, model.canonicalName)).insertionSort fun a b => a.1.priority ≤ b.1.priority
  offerings.head?.map fun first => ⟨offerings.map (·.1.offeringId), first.1.offeringId,
    offerings.map fun offering => ⟨offering.1.plugin, offering.2, none⟩⟩

/-! ### The programs -/

/-- What a deploy asks for besides the rows of its tenant and the install. -/
structure DeployRoutes {R : Type} (A : R → Type) where
  resolveAgentRoleIds : List String → Client A String (List String)
  tenantDomain : Client A String String
  getResolvedCatalog : Client A String (List ResolvedModel)
  parentId : Client A String (Option String)
  /-- the servers of the tenant's parent -/
  listMcpServers : String → Client A String (List McpServer)
  ensureBuiltInMcpServers : String → Client A String (List McpServer)
  scheduleAgentRun : String → String → String → Client A String Unit
  assignRolesToAgent : List String → Id → String → Client A String Unit

section

variable {R : Type} {A : R → Type} {ν : Type}

/-- The requests for the rows of the tenant, beside the others. -/
abbrev RowAnswers (A : R → Type) := Sum.elim A Request.Answers

abbrev DeployAnswers (A : R → Type) := Sum.elim (RowAnswers A) InstallRequest.Answers

abbrev DeployClient (A : R → Type) (α : Type) := Client (DeployAnswers A) String α

variable (routes : DeployRoutes A)

/-- The workspace of a tenant is its parent, or itself. -/
def atWorkspace (own : Call (List McpServer))
    (other : String → Client A String (List McpServer)) :
    Client (RowAnswers A) String (List McpServer) := do
  match ← (routes.parentId.left : Client (RowAnswers A) String (Option String)) with
  | none => own.right
  | some parent => (other parent).left

variable (P : AgentBuild ν) (E : McpPackages) (origin : String) (now : ℕ)

/-- The tree of an agent, found when its asset is there. -/
def agentFiles (definitionId packageName : String) (render : String → WorkerWorkflowInput ν)
    (toolEffects : List Worker.ToolEffect) (assetId : Id) : Client (RowAnswers A) String Files := do
  let hubCredentialId ← (ensureAgentHubCredential origin definitionId assetId).right
  pure (renderWorkerSourceTree P.num P.texts P.bundle packageName
    (render (toString hubCredentialId)) toolEffects)

def agentPackageArgs (agent : CheckedAgent) (input : NewAgentInput) (domain : String)
    (offering : ExistingOffering ν) (mcpServers : List (McpServerDeployment ν)) :
    InstallPackageArgs (RowAnswers A) where
  assetName := agent.assetName
  displayName := agent.name
  files := agentFiles P origin agent.slug agent.packageName (fun hubCredentialId =>
    agentWorkflowInput agent domain offering.declaredSources hubCredentialId mcpServers)
    (input.toolEffects.getD [])
  entry := "./workflow.js"
  sourceOfferingIds := offering.sourceOfferingIds
  defaultSourceOfferingId := offering.defaultSourceOfferingId
  redeploy := input.redeploy

/-- Without a handle the catalog is not read. -/
def requestedCatalog (requestedHandles : List String) :
    Client (RowAnswers A) String (List McpServer) :=
  if requestedHandles = [] then pure []
  else atWorkspace routes (listMcpServers E) routes.listMcpServers

def requestedServers (input : NewAgentInput) :
    Client (RowAnswers A) String (List (McpServerDeployment ν)) := do
  let catalog ← requestedCatalog routes E (input.mcpHandles.getD [])
  .done (resolveMcpServerDeployments P catalog (input.mcpHandles.getD []))

/-- What a deploy does once its package is installed. -/
def afterInstall (agent : CheckedAgent) (input : NewAgentInput) (domain : String)
    (roleIds : List String) (parsed : Installed) : Client A String Unit := do
  match input.schedule with
  | some expression => routes.scheduleAgentRun expression agent.assetName domain
  | none => pure ()
  if roleIds.length > 0 then
    routes.assignRolesToAgent roleIds parsed.deploymentId (agent.slug ++ "@" ++ domain)
  else pure ()

def deployAgentSource (input : NewAgentInput) : DeployClient A Installed := do
  let agent ← .done (checkAgent P input)
  let roleIds ← (routes.resolveAgentRoleIds (input.roles.getD [])).left.left
  let domain ← routes.tenantDomain.left.left
  let models ← routes.getResolvedCatalog.left.left
  match resolveExistingOffering models with
  | none => .fail "connect a model provider in Settings before deploying an agent"
  | some offering => do
    let mcpServers ← (requestedServers routes P E input).left
    let parsed ← installPackage
      (agentPackageArgs P origin agent input domain offering mcpServers) now
    let _ ← (afterInstall routes agent input domain roleIds parsed).left.left
    pure parsed

structure DeployWorkerArgs (ν : Type) where
  tenantDomain : String
  offering : ExistingOffering ν
  redeploy : Bool

def workerWorkflowInput (args : DeployWorkerArgs ν) (mcpServers : List (McpServerDeployment ν))
    (hubCredentialId : String) : WorkerWorkflowInput ν where
  workflowId := workerWorkflowId
  triggerAddress := "worker@" ++ args.tenantDomain
  inferencePreferences := args.offering.declaredSources
  systemPrompt := P.workerSystemPrompt
  hubCredentialId := hubCredentialId
  mcpServers := mcpServers

def workerPackageArgs (args : DeployWorkerArgs ν) (mcpServers : List (McpServerDeployment ν)) :
    InstallPackageArgs (RowAnswers A) where
  assetName := workerSourceAssetName
  displayName := "New worker"
  files := agentFiles P origin workerWorkflowId "@workbench/worker"
    (workerWorkflowInput P args mcpServers) []
  entry := "./workflow.js"
  sourceOfferingIds := args.offering.sourceOfferingIds
  defaultSourceOfferingId := args.offering.defaultSourceOfferingId
  redeploy := args.redeploy

/-- The flights that a call waits for are not shown: they are calls of their own. -/
def deployWorkerSource (args : DeployWorkerArgs ν) : DeployClient A Installed := do
  let servers ← (atWorkspace routes (runEnsureBuiltInMcpServers E)
    routes.ensureBuiltInMcpServers).left
  installPackage
    (workerPackageArgs P origin args (servers.map (toMcpServerDeployment P))) now

end

end Workbench.Web
