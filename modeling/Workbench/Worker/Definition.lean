import Workbench.Lib.JsonLiteral

/-!
The worker's definition: the workflow that the bundled entry builds, and the JSON that is written
beside the entry for readers.

Both are made from the same input by the same functions for bindings, requirements and the
director. The entry's `defineWorkflow` adds what its module documents and nothing else.
-/

namespace Workbench.Worker

open Workbench.Lib

/-! ### Ids and credentials -/

def workerWorkflowId : String := "wf_worker"

def workerStepId : String := "worker"

def artifactToolsPackage : String := "@corbits/artifacts/sidecar-bundle"

def memoryToolsPackage : String := "@corbits/memory/sidecar-bundle"

def mcpToolsPackage : String := "@corbits/mcp/sidecar-bundle"

def hubCredentialHandle : String := "hub"

def hubProviderName : String := "workbench-hub"

def agentHubCredentialName (workflowId : String) : String := workflowId ++ "-hub"

structure HubCredentialBinding where
  package : String
  handle : String
  provider : String
  name : String
  locator : String
  deriving DecidableEq, Repr

/-- The conditions name the one tool package that the grant is for. -/
structure GrantRequirement where
  resource : String
  action : String
  effect : String
  source : String
  tool : Option String
  deriving DecidableEq, Repr

def hubCredentialBinding (toolPackage workflowId : String) : HubCredentialBinding :=
  ⟨toolPackage, hubCredentialHandle, hubProviderName, agentHubCredentialName workflowId,
    "tenant"⟩

def hubCredentialUseRequirement (toolPackage credentialId : String) : GrantRequirement :=
  ⟨"credential:" ++ credentialId, "use", "allow", "creator", some ("tool:" ++ toolPackage)⟩

def artifactToolsCredentialBinding : String → HubCredentialBinding :=
  hubCredentialBinding artifactToolsPackage

def artifactToolsCredentialUseRequirement : String → GrantRequirement :=
  hubCredentialUseRequirement artifactToolsPackage

def memoryToolsCredentialBinding : String → HubCredentialBinding :=
  hubCredentialBinding memoryToolsPackage

def memoryToolsCredentialUseRequirement : String → GrantRequirement :=
  hubCredentialUseRequirement memoryToolsPackage

/-- One bound MCP server as a deploy carries it. -/
structure McpServerDeployment (ν : Type) where
  handle : String
  url : String
  credentialId : String
  providerName : String
  credentialName : String
  tools : List (Json ν)
  allowWithoutAsk : Option (List String)

variable {ν : Type}

def mcpServerCredentialBinding (server : McpServerDeployment ν) : HubCredentialBinding :=
  ⟨mcpToolsPackage, server.handle, server.providerName, server.credentialName, "tenant"⟩

def mcpServerCredentialUseRequirement : String → GrantRequirement :=
  hubCredentialUseRequirement mcpToolsPackage

def mcpToolNamePattern (handle : String) : String := handle ++ ".*"

/-! ### The input of a definition -/

structure InferencePreference (ν : Type) where
  provider : String
  model : String
  parameters : Option (List (String × Json ν))

structure WorkerWorkflowInput (ν : Type) where
  workflowId : String
  triggerAddress : String
  inferencePreferences : List (InferencePreference ν)
  systemPrompt : String
  hubCredentialId : String
  mcpServers : List (McpServerDeployment ν)

/-- The effects that a deploy carries; `ask` is what a tool has without one. -/
inductive CarriedEffect
  | allow
  | deny
  deriving DecidableEq, Repr

def CarriedEffect.text : CarriedEffect → String
  | allow => "allow"
  | deny => "deny"

structure ToolEffect where
  resource : String
  effect : CarriedEffect
  deriving DecidableEq, Repr

/-- The requirement that declares a tool effect. -/
def toolEffectRequirement (tool : ToolEffect) : GrantRequirement :=
  ⟨tool.resource, "invoke", tool.effect.text, "creator", none⟩

structure WorkerToolNames where
  visible : List String
  deferred : List String
  deriving DecidableEq, Repr

structure DirectorRef where
  id : String
  visible : List String
  deferred : List String
  deriving DecidableEq, Repr

def workerDirectorRef (toolNames : WorkerToolNames) (mcpHandles : List String) : DirectorRef :=
  ⟨"@corbits/deferred-tools/director", toolNames.visible,
    toolNames.deferred ++ mcpHandles.map mcpToolNamePattern⟩

def workerDescription : String :=
  "A co-worker that lives in one workbench: answers questions, " ++
  "drafts text, and gets things done for the team"

/-! ### The workflow -/

/-- What the factory of the MCP tools is made with. -/
structure McpFactoryServer (ν : Type) where
  handle : String
  url : String
  tools : List (Json ν)
  allowWithoutAsk : Option (List String)

inductive ToolFactory (ν : Type)
  /-- one of `WORKER_TOOL_FACTORIES` -/
  | bundled (name : String)
  | mcpServers (servers : List (McpFactoryServer ν))

structure AgentDefinition (ν : Type) where
  id : String
  description : String
  systemPrompt : String
  toolFactories : List (ToolFactory ν)
  director : DirectorRef
  capabilities : List String
  inferenceSources : List (InferencePreference ν)
  toolPackagePins : List String

/-- A step as `step` takes it. -/
structure RawStep (ν : Type) where
  agent : AgentDefinition ν
  triggers : String

structure Trigger where
  type : String
  «to» : String
  deriving DecidableEq, Repr

/-- What `defineWorkflow` is given. -/
structure RawWorkflow (ν : Type) where
  id : String
  trigger : Trigger
  credentialBindings : List HubCredentialBinding
  grantRequirements : List GrantRequirement
  steps : List (String × RawStep ν)

structure WorkflowStep (ν : Type) where
  kind : String
  id : String
  agent : AgentDefinition ν
  drainBehavior : Option String
  triggers : String
  input : Option String

structure WorkflowDefinition (ν : Type) where
  id : String
  credentialBindings : List HubCredentialBinding
  grantRequirements : List GrantRequirement
  triggers : List Trigger
  steps : List (String × WorkflowStep ν)
  stepOrder : List String

/-- The normalization: a single step has the trigger's payload for its input, an unbounded one waits
when it drains, and a bare trigger is a list of one. -/
def defineWorkflow (raw : RawWorkflow ν) : WorkflowDefinition ν where
  id := raw.id
  credentialBindings := raw.credentialBindings
  grantRequirements := raw.grantRequirements
  triggers := [raw.trigger]
  steps := raw.steps.map fun entry => (entry.1,
    { kind := "step"
      id := entry.1
      agent := entry.2.agent
      drainBehavior := if entry.2.triggers = "unbounded" then some "wait" else none
      triggers := entry.2.triggers
      input := if raw.steps.length = 1 then some "trigger.payload" else none })
  stepOrder := raw.steps.map Prod.fst

/-- What the bundle is built of: the tool factories, the names their declarations give, and the
servers that the factory of the MCP tools takes. -/
structure WorkerBundle (ν : Type) where
  factories : List String
  toolNames : WorkerToolNames
  takes : List (McpFactoryServer ν) → Bool

def mcpFactoryServer (server : McpServerDeployment ν) : McpFactoryServer ν :=
  ⟨server.handle, server.url, server.tools, server.allowWithoutAsk⟩

def buildWorkerWorkflow (B : WorkerBundle ν) (input : WorkerWorkflowInput ν) :
    Except String (WorkflowDefinition ν) :=
  if input.workflowId = "" then .error "buildWorkerWorkflow requires a non-empty workflowId"
  else if input.triggerAddress = "" then
    .error "buildWorkerWorkflow requires a non-empty triggerAddress"
  else if input.systemPrompt = "" then
    .error "buildWorkerWorkflow requires a non-empty systemPrompt"
  else if input.hubCredentialId = "" then
    .error "buildWorkerWorkflow requires a non-empty hubCredentialId"
  else if !B.takes (input.mcpServers.map mcpFactoryServer) then .error "mcpServers"
  else .ok (defineWorkflow
    { id := input.workflowId
      trigger := ⟨"mail", input.triggerAddress⟩
      credentialBindings := artifactToolsCredentialBinding input.workflowId ::
        memoryToolsCredentialBinding input.workflowId ::
          input.mcpServers.map mcpServerCredentialBinding
      grantRequirements := artifactToolsCredentialUseRequirement input.hubCredentialId ::
        memoryToolsCredentialUseRequirement input.hubCredentialId ::
          input.mcpServers.map fun server => mcpServerCredentialUseRequirement server.credentialId
      steps := [("worker",
        { agent :=
            { id := workerStepId
              description := workerDescription
              systemPrompt := input.systemPrompt
              toolFactories := B.factories.map .bundled ++
                [.mcpServers (input.mcpServers.map mcpFactoryServer)]
              director := workerDirectorRef B.toolNames (input.mcpServers.map (·.handle))
              capabilities := []
              inferenceSources := input.inferencePreferences
              toolPackagePins := [] }
          triggers := "unbounded" })] })

/-! ### The JSON of a definition -/

def strings (texts : List String) : Json ν := .array (texts.map .string)

def bindingJson (binding : HubCredentialBinding) : Json ν :=
  .object [("package", .string binding.package), ("handle", .string binding.handle),
    ("provider", .string binding.provider), ("name", .string binding.name),
    ("locator", .string binding.locator)]

/-- A member that is there or not. -/
def optional {α : Type} (key : String) (value : Option α) (json : α → Json ν) :
    List (String × Json ν) :=
  value.elim [] fun a => [(key, json a)]

def requirementJson (requirement : GrantRequirement) : Json ν :=
  .object ([("resource", .string requirement.resource), ("action", .string requirement.action),
    ("effect", .string requirement.effect), ("source", .string requirement.source)] ++
      optional "conditions" requirement.tool fun tool => .object [("tool", .string tool)])

def preferenceJson (preference : InferencePreference ν) : Json ν :=
  .object ([("provider", .string preference.provider), ("model", .string preference.model)] ++
    optional "parameters" preference.parameters .object)

def directorJson (director : DirectorRef) : Json ν :=
  .object [("id", .string director.id), ("config", .object [("visible", strings director.visible),
    ("deferred", strings director.deferred)])]

def triggerJson (trigger : Trigger) : Json ν :=
  .object [("type", .string trigger.type), ("to", .string trigger.«to»)]

def buildWorkerDefinitionJson (input : WorkerWorkflowInput ν) (toolNames : WorkerToolNames)
    (toolEffects : List ToolEffect) : Json ν :=
  .object [
    ("id", .string input.workflowId),
    ("credentialBindings", .array ((artifactToolsCredentialBinding input.workflowId ::
      memoryToolsCredentialBinding input.workflowId ::
        input.mcpServers.map mcpServerCredentialBinding).map bindingJson)),
    ("grantRequirements", .array ((artifactToolsCredentialUseRequirement input.hubCredentialId ::
      memoryToolsCredentialUseRequirement input.hubCredentialId ::
        ((input.mcpServers.map fun server => mcpServerCredentialUseRequirement server.credentialId)
          ++ toolEffects.map toolEffectRequirement)).map requirementJson)),
    ("triggers", .array [.object [("type", .string "mail"), ("to", .string input.triggerAddress)]]),
    ("steps", .object [(workerStepId, .object [
      ("kind", .string "step"),
      ("id", .string workerStepId),
      ("agent", .object [
        ("id", .string workerStepId),
        ("description", .string workerDescription),
        ("systemPrompt", .string input.systemPrompt),
        ("toolFactories", .array []),
        ("director", directorJson
          (workerDirectorRef toolNames (input.mcpServers.map (·.handle)))),
        ("capabilities", .array []),
        ("inference", .object [("sources", .array
          (input.inferencePreferences.map preferenceJson))]),
        ("toolPackagePins", .array [])]),
      ("drainBehavior", .string "wait"),
      ("triggers", .string "unbounded"),
      ("input", .object [("from", .string "trigger.payload")])])]),
    ("stepOrder", .array [.string workerStepId])]

/-- The agent without its functions. -/
def AgentDefinition.project (agent : AgentDefinition ν) : Json ν :=
  .object [
    ("id", .string agent.id),
    ("description", .string agent.description),
    ("systemPrompt", .string agent.systemPrompt),
    ("toolFactories", .array []),
    ("director", directorJson agent.director),
    ("capabilities", strings agent.capabilities),
    ("inference", .object [("sources", .array (agent.inferenceSources.map preferenceJson))]),
    ("toolPackagePins", strings agent.toolPackagePins)]

def WorkflowStep.project (step : WorkflowStep ν) : Json ν :=
  .object ([("kind", .string step.kind), ("id", .string step.id), ("agent", step.agent.project)] ++
    optional "drainBehavior" step.drainBehavior .string ++ [("triggers", .string step.triggers)] ++
      optional "input" step.input fun origin => .object [("from", .string origin)])

/-- The workflow without its functions. -/
def WorkflowDefinition.project (workflow : WorkflowDefinition ν) : Json ν :=
  .object [
    ("id", .string workflow.id),
    ("credentialBindings", .array (workflow.credentialBindings.map bindingJson)),
    ("grantRequirements", .array (workflow.grantRequirements.map requirementJson)),
    ("triggers", .array (workflow.triggers.map triggerJson)),
    ("steps", .object (workflow.steps.map fun entry => (entry.1, entry.2.project))),
    ("stepOrder", strings workflow.stepOrder)]

end Workbench.Worker
