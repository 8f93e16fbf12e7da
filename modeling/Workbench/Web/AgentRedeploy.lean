import Workbench.Web.AgentSource

/-!
The two ways to deploy an agent once more: a restart, and a move to another model provider.

Both read the prompt out of the source tree. The move also carries the servers that the tree binds
and the effects of the run's tool grants; a restart carries neither.
-/

namespace Workbench.Web

open Workbench.Lib
open Workbench.Worker (InferencePreference McpServerDeployment ToolEffect
  workflowSourceDefinitionPath renderWorkerSourceTree decimals decimals_reads someTexts someBundle)

/-- An agent as the chat lists it. The name can be an alias. -/
structure ChatAgent where
  id : String
  name : String
  assetName : String
  liveAddress : Option String
  deriving DecidableEq, Repr

def isDefaultWorker (agent : ChatAgent) : Bool := agent.assetName = workerSourceAssetName

/-! ### The two paths -/

section

variable {ν δ : Type} (num : Numerals ν)

/-- The input that a restart makes of what it reads. -/
def restartInput (name slug systemPrompt : String) : NewAgentInput where
  name := name
  slug := some slug
  systemPrompt := systemPrompt
  redeploy := true

/-- A restart: what it reads is the definition, and what it deploys is given by the deploys. -/
def deployExistingAgent (deployWorkerSource : Except String δ)
    (deployAgentSource : NewAgentInput → Except String δ) (definitionFile : String)
    (agent : ChatAgent) : Except String δ :=
  if isDefaultWorker agent then deployWorkerSource
  else
    match agentSlugFromSourceAssetName agent.assetName with
    | none => .error (agent.assetName ++ " isn't a recognized agent source asset")
    | some slug => do
      let source ← readAgentSource num definitionFile agent.id
      deployAgentSource (restartInput agent.name slug source.systemPrompt)

/-- The input that keeps what a person has set of an agent. -/
def buildAgentRedeployInput (name slug systemPrompt : String) (mcpHandles : List String)
    (toolGrants : List Grant) : NewAgentInput where
  name := name
  slug := some slug
  systemPrompt := systemPrompt
  mcpHandles := some mcpHandles
  toolEffects := some (toolEffectsToCarry toolGrants)
  redeploy := true

def redeployAgentForProviderChange (E : McpPackages)
    (deployAgentSource : NewAgentInput → Except String δ) (definitionFile : String) (rows : RunRows)
    (agent : ChatAgent) : Except String δ :=
  match agentSlugFromSourceAssetName agent.assetName with
  | none => .error (agent.assetName ++ " was not deployed by this workbench")
  | some slug => do
    let source ← readAgentSource num definitionFile agent.id
    let mcpHandles ← readAgentMcpHandles num definitionFile agent.id
    let grants := readWorkerToolGrants E rows agent.liveAddress
    deployAgentSource (buildAgentRedeployInput agent.name slug source.systemPrompt mcpHandles
      (grants.getD []))

end

/-! ### Agreement -/

section

variable {ν : Type}

/-- A deploy that has written a source tree: what it was given, and what came of its checks. -/
structure SourceDeploy (P : AgentBuild ν) where
  input : NewAgentInput
  catalog : List McpServer
  domain : String
  declaredSources : List (InferencePreference ν)
  hubCredentialId : String
  agent : CheckedAgent
  mcpServers : List (McpServerDeployment ν)
  checked : checkAgent P input = .ok agent
  resolved : resolveMcpServerDeployments P catalog (input.mcpHandles.getD []) = .ok mcpServers

variable {P : AgentBuild ν}

def SourceDeploy.tree (deploy : SourceDeploy P) : OrderedMap String String :=
  renderWorkerSourceTree P.num P.texts P.bundle deploy.agent.packageName
    (agentWorkflowInput deploy.agent deploy.domain deploy.declaredSources deploy.hubCredentialId
      deploy.mcpServers) (deploy.input.toolEffects.getD [])

/-- No agent that is deployed here is the default worker. -/
lemma not_isDefaultWorker {agent : ChatAgent} (checked : CheckedAgent)
    (hasset : agent.assetName = checked.assetName) : isDefaultWorker agent = false := by
  have hhead : (agentAssetHead ++ (checked.slug ++ agentAssetTail)).toList.head? = some 'a' := by
    rw [String.toList_append]
    rfl
  rw [isDefaultWorker, hasset, decide_eq_false_iff_not]
  intro h
  rw [CheckedAgent.assetName, agentDeploySourceAssetName, String.append_assoc] at h
  rw [h] at hhead
  exact absurd hhead (by decide)

section

variable (hnum : ∀ n, P.num.Reads n) (deploy : SourceDeploy P) {definitionFile : String}
  (hfile : deploy.tree.get workflowSourceDefinitionPath = some definitionFile) {agent : ChatAgent}
  (hasset : agent.assetName = deploy.agent.assetName)

include hfile in
lemma definitionFile_eq : definitionFile = String.ofList (Json.stringify P.num
    (Worker.buildWorkerDefinitionJson (agentWorkflowInput deploy.agent deploy.domain
      deploy.declaredSources deploy.hubCredentialId deploy.mcpServers) P.bundle.toolNames
        (deploy.input.toolEffects.getD []))) ++ "\n" := by
  rw [SourceDeploy.tree, Worker.definition_rendered] at hfile
  exact (Option.some.inj hfile).symm

include hasset in
lemma slug_of_asset : agentSlugFromSourceAssetName agent.assetName = some deploy.agent.slug := by
  rw [hasset]
  exact agentSlugFromSourceAssetName_name deploy.agent.valid

include hnum hfile hasset

/-- What a restart deploys. -/
lemma deployExistingAgent_eq {δ : Type} (deployWorkerSource : Except String δ)
    (deployAgentSource : NewAgentInput → Except String δ) :
    deployExistingAgent P.num deployWorkerSource deployAgentSource definitionFile agent =
      deployAgentSource
        (restartInput agent.name deploy.agent.slug deploy.agent.systemPrompt) := by
  rw [deployExistingAgent, if_neg (by simp [not_isDefaultWorker deploy.agent hasset]),
    slug_of_asset deploy hasset, definitionFile_eq deploy hfile]
  simp only [readAgentSource_definition hnum]
  rfl

/-- What a move deploys. -/
lemma redeployAgentForProviderChange_eq {δ : Type} (E : McpPackages)
    (deployAgentSource : NewAgentInput → Except String δ) (rows : RunRows) :
    redeployAgentForProviderChange P.num E deployAgentSource definitionFile rows agent =
      deployAgentSource (buildAgentRedeployInput agent.name deploy.agent.slug
        deploy.agent.systemPrompt (deploy.mcpServers.map (·.handle))
        ((readWorkerToolGrants E rows agent.liveAddress).getD [])) := by
  rw [redeployAgentForProviderChange, slug_of_asset deploy hasset, definitionFile_eq deploy hfile]
  simp only [readAgentSource_definition hnum, readAgentMcpHandles_definition hnum]
  rfl

end

def someBuild : AgentBuild ℕ :=
  ⟨decimals, someTexts, someBundle, id, fun tool => .string tool.name, "Help the team."⟩

def scout : CheckedAgent where
  name := "Scout"
  systemPrompt := "Look around."
  slug := "scout"
  named := by decide
  prompted := by decide
  bare := by decide +kernel
  valid := by decide +kernel

def scoutInput (mcpHandles : List String) : NewAgentInput where
  name := "Scout"
  systemPrompt := "Look around."
  slug := some "scout"
  mcpHandles := some mcpHandles

lemma scout_checked (mcpHandles : List String) :
    checkAgent someBuild (scoutInput mcpHandles) = .ok scout := by
  have hname : trimmed "Scout" = "Scout" := by decide +kernel
  have hprompt : trimmed "Look around." = "Look around." := by decide +kernel
  have hslug : isValidSlug "scout" := by decide +kernel
  simp [checkAgent, scoutInput, hname, hprompt, hslug, scout]

def exa : McpServer := ⟨4, 5, "exa", "Exa", "https://mcp.exa.ai", .none, []⟩

/-- The agent's deploy, without a server. -/
def plainScout : SourceDeploy someBuild where
  input := scoutInput []
  catalog := [exa]
  domain := "acme.example"
  declaredSources := []
  hubCredentialId := "7"
  agent := scout
  mcpServers := []
  checked := scout_checked []
  resolved := rfl

/-- The agent's deploy, bound to the server. -/
def boundScout : SourceDeploy someBuild :=
  { plainScout with
    input := scoutInput ["exa"]
    mcpServers := [toMcpServerDeployment someBuild exa]
    checked := scout_checked ["exa"]
    resolved := rfl }

def scoutAgent : ChatAgent := ⟨"9", "Scout", scout.assetName, some "scout@acme.example"⟩

def scoutRows (effect : GrantEffect) : RunRows where
  runs := [⟨"run_1", "scout@acme.example"⟩]
  principals := [⟨3, "workflow", "run_1"⟩]
  grants := [⟨3, "tool:mail.send", "invoke", effect⟩]

end

end Workbench.Web
