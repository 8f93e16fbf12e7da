import Workbench.Web.AgentDeploy

/-!
What is read back of a deployed agent: its prompt and its servers from the definition in its source
tree, and the effects of its tools from the grants of its live run.
-/

namespace Workbench.Web

open Workbench.Lib
open Workbench.Worker (ToolEffect CarriedEffect WorkerWorkflowInput WorkerToolNames
  renderWorkerSourceTree workflowSourceDefinitionPath buildWorkerDefinitionJson mcpToolsPackage
  string? elements? members? optional?)

/-! ### The definition of a source tree -/

structure InferenceSource where
  provider : String
  model : String
  deriving DecidableEq, Repr

structure AgentToolPackagePin where
  name : String
  version : String
  deriving DecidableEq, Repr

structure BoundCredential where
  package : String
  handle : String
  deriving DecidableEq, Repr

structure AgentWorkflowStep where
  systemPrompt : String
  sources : List InferenceSource
  toolPackagePins : Option (List AgentToolPackagePin)
  deriving DecidableEq, Repr

/-- What a definition is read for. -/
structure AgentWorkflowJson where
  id : String
  credentialBindings : Option (List BoundCredential)
  steps : List (String × AgentWorkflowStep)
  deriving DecidableEq, Repr

section

variable {ν : Type}

def bindingOf (v : Json ν) : Option BoundCredential := do
  let package ← (v.member "package").bind string?
  let handle ← (v.member "handle").bind string?
  pure ⟨package, handle⟩

def sourceOf (v : Json ν) : Option InferenceSource := do
  let provider ← (v.member "provider").bind string?
  let model ← (v.member "model").bind string?
  pure ⟨provider, model⟩

def pinOf (v : Json ν) : Option AgentToolPackagePin := do
  let name ← (v.member "name").bind string?
  let version ← (v.member "version").bind string?
  pure ⟨name, version⟩

def arrayOf {α : Type} (read : Json ν → Option α) (v : Json ν) : Option (List α) :=
  (elements? v).bind fun vs => vs.mapM read

def stepOf (v : Json ν) : Option AgentWorkflowStep := do
  let agent ← v.member "agent"
  let systemPrompt ← (agent.member "systemPrompt").bind string?
  let inference ← agent.member "inference"
  let sources ← (inference.member "sources").bind (arrayOf sourceOf)
  let toolPackagePins ← optional? "toolPackagePins" (arrayOf pinOf) agent
  pure ⟨systemPrompt, sources, toolPackagePins⟩

/-- `AgentWorkflowJsonShape`: every member of the steps is one. -/
def agentWorkflowOf (v : Json ν) : Option AgentWorkflowJson := do
  let id ← (v.member "id").bind string?
  let credentialBindings ← optional? "credentialBindings" (arrayOf bindingOf) v
  let steps ← ((v.member "steps").bind members?).bind fun ms =>
    ms.mapM fun entry => (stepOf entry.2).map fun step => (entry.1, step)
  pure ⟨id, credentialBindings, steps⟩

def retiredWorkflowEnvelope (assetId : String) : String :=
  "Asset \"" ++ assetId ++ "\" carries no " ++ workflowSourceDefinitionPath ++ " beside its " ++
    Worker.workflowSourceEntryPath ++ " source entry. Re-author and re-deploy the definition " ++
    "to write its source tree; nothing can read or edit it until then."

def parseWorkflowSourceDefinition (num : Numerals ν) (definitionJson assetId : String) :
    Except String String :=
  if (Json.parse num (trimmed definitionJson).toList).isSome then .ok (trimmed definitionJson)
  else .error (retiredWorkflowEnvelope assetId)

/-- The definition of a fetched file. -/
def readAgentWorkflowStep (num : Numerals ν) (definitionFile assetId : String) :
    Except String AgentWorkflowJson := do
  let workflowJson ← parseWorkflowSourceDefinition num definitionFile assetId
  match (Json.parse num workflowJson.toList).bind agentWorkflowOf with
  | none => .error "this agent's source came back an unexpected shape"
  | some parsed =>
    if parsed.steps.length = 0 then
      .error "this agent's source has no steps to read a prompt from"
    else pure parsed

/-- The one step of every agent that is deployed here. -/
def onlyStep (definition : AgentWorkflowJson) : Except String AgentWorkflowStep :=
  match definition.steps with
  | [] => .error "this agent's source has no steps to read a prompt from"
  | (_, step) :: _ => .ok step

structure AgentSource where
  systemPrompt : String
  declaredSources : List InferenceSource
  deriving DecidableEq, Repr

def readAgentSource (num : Numerals ν) (definitionFile assetId : String) :
    Except String AgentSource := do
  let step ← onlyStep (← readAgentWorkflowStep num definitionFile assetId)
  pure ⟨step.systemPrompt, step.sources⟩

/-- The servers that a definition binds. -/
def readAgentMcpHandles (num : Numerals ν) (definitionFile assetId : String) :
    Except String (List String) := do
  let definition ← readAgentWorkflowStep num definitionFile assetId
  pure (((definition.credentialBindings.getD []).filter (·.package = mcpToolsPackage)).map
    (·.handle))

/-! ### Reading back what a deploy wrote -/

lemma mapM_some {α β γ : Type} {json : α → β} {read : β → Option γ} {f : α → γ}
    (h : ∀ a, read (json a) = some (f a)) (as : List α) :
    (as.map json).mapM read = some (as.map f) := by
  induction as with
  | nil => rfl
  | cons a as ih =>
    rw [List.map_cons, List.mapM_cons, h, ih]
    rfl

/-- The bindings of an agent that is deployed here. -/
def bindingsOf (input : WorkerWorkflowInput ν) : List BoundCredential :=
  (Worker.artifactToolsCredentialBinding input.workflowId ::
    Worker.memoryToolsCredentialBinding input.workflowId ::
      input.mcpServers.map Worker.mcpServerCredentialBinding).map fun binding =>
        ⟨binding.package, binding.handle⟩

def sourcesOf (input : WorkerWorkflowInput ν) : List InferenceSource :=
  input.inferencePreferences.map fun preference => ⟨preference.provider, preference.model⟩

lemma bindingOf_bindingJson (binding : Worker.HubCredentialBinding) :
    bindingOf (Worker.bindingJson binding : Json ν) = some ⟨binding.package, binding.handle⟩ := by
  simp [bindingOf, Worker.bindingJson, Json.member, string?]

lemma sourceOf_preferenceJson (preference : Worker.InferencePreference ν) :
    sourceOf (Worker.preferenceJson preference) =
      some ⟨preference.provider, preference.model⟩ := by
  obtain ⟨provider, model, parameters⟩ := preference
  cases parameters <;>
    simp [sourceOf, Worker.preferenceJson, Worker.optional, Json.member, string?]

/-- What is read of a definition that was built here. -/
lemma agentWorkflowOf_definition (input : WorkerWorkflowInput ν) (toolNames : WorkerToolNames)
    (toolEffects : List ToolEffect) :
    agentWorkflowOf (buildWorkerDefinitionJson input toolNames toolEffects) =
      some ⟨input.workflowId, some (bindingsOf input),
        [(Worker.workerStepId, ⟨input.systemPrompt, sourcesOf input, some []⟩)]⟩ := by
  have hservers := mapM_some (@bindingOf_bindingJson ν)
    (input.mcpServers.map Worker.mcpServerCredentialBinding)
  have hsources := mapM_some sourceOf_preferenceJson input.inferencePreferences
  simp [agentWorkflowOf, buildWorkerDefinitionJson, stepOf, optional?, arrayOf, Json.member,
    string?, elements?, members?, bindingsOf, sourcesOf, bindingOf_bindingJson, hservers, hsources,
    -List.map_map]

/-- The line break after a definition is trimmed off. -/
lemma trimmed_definition (num : Numerals ν) (ms : List (String × Json ν)) :
    trimmed (String.ofList (Json.stringify num (.object ms)) ++ "\n") =
      String.ofList (Json.stringify num (.object ms)) := by
  obtain ⟨body, hbody⟩ := Json.stringify_object num ms
  have hbare : NumberText.Bare (Json.stringify num (.object ms)) := by
    rw [hbody]
    refine ⟨?_, ?_⟩
    · rintro c ⟨⟩
      rfl
    · intro c hc
      rw [← List.cons_append, List.getLast?_concat] at hc
      obtain rfl := Option.some.inj hc
      rfl
  have hblank : ∀ c ∈ ['\n'], NumberText.isTrimmed c := by
    intro c hc
    obtain rfl := List.mem_singleton.mp hc
    rfl
  have htrim := NumberText.trim_append hbare hblank
  rw [trimmed, String.toList_append, String.toList_ofList]
  exact congrArg String.ofList htrim

section

variable {num : Numerals ν} (hnum : ∀ n, num.Reads n) (input : WorkerWorkflowInput ν)
  (toolNames : WorkerToolNames) (toolEffects : List ToolEffect) (assetId : String)

include hnum

/-- What is read of the file that a deploy wrote. -/
lemma readAgentWorkflowStep_definition :
    readAgentWorkflowStep num (String.ofList (Json.stringify num
      (buildWorkerDefinitionJson input toolNames toolEffects)) ++ "\n") assetId =
      .ok ⟨input.workflowId, some (bindingsOf input),
        [(Worker.workerStepId, ⟨input.systemPrompt, sourcesOf input, some []⟩)]⟩ := by
  have htrim : trimmed (String.ofList (Json.stringify num
      (buildWorkerDefinitionJson input toolNames toolEffects)) ++ "\n") =
      String.ofList (Json.stringify num (buildWorkerDefinitionJson input toolNames toolEffects)) :=
    trimmed_definition num _
  have hparse : Json.parse num (Json.stringify num
      (buildWorkerDefinitionJson input toolNames toolEffects)) =
      some (buildWorkerDefinitionJson input toolNames toolEffects) := by
    simpa using @Json.parse_stringify _ num _ [] (Json.reads_of_numerals hnum
      (buildWorkerDefinitionJson input toolNames toolEffects)) (by simp)
  have hfile : parseWorkflowSourceDefinition num (String.ofList (Json.stringify num
      (buildWorkerDefinitionJson input toolNames toolEffects)) ++ "\n") assetId =
      .ok (String.ofList (Json.stringify num
        (buildWorkerDefinitionJson input toolNames toolEffects))) := by
    rw [parseWorkflowSourceDefinition, htrim, String.toList_ofList, hparse]
    rfl
  have hread := agentWorkflowOf_definition input toolNames toolEffects
  simp only [readAgentWorkflowStep, hfile, bind, Except.bind, String.toList_ofList, hparse,
    Option.bind, hread]
  rfl

lemma readAgentSource_definition :
    readAgentSource num (String.ofList (Json.stringify num
      (buildWorkerDefinitionJson input toolNames toolEffects)) ++ "\n") assetId =
      .ok ⟨input.systemPrompt, sourcesOf input⟩ := by
  rw [readAgentSource, readAgentWorkflowStep_definition hnum]
  rfl

/-- The handles that are read are those of the servers: the hub's own bindings are for other
packages. -/
lemma readAgentMcpHandles_definition :
    readAgentMcpHandles num (String.ofList (Json.stringify num
      (buildWorkerDefinitionJson input toolNames toolEffects)) ++ "\n") assetId =
      .ok (input.mcpServers.map (·.handle)) := by
  have hservers : ∀ servers : List (Worker.McpServerDeployment ν),
      ((servers.map Worker.mcpServerCredentialBinding).map fun binding =>
        (⟨binding.package, binding.handle⟩ : BoundCredential)).filter
          (·.package = mcpToolsPackage) =
      servers.map fun server => ⟨mcpToolsPackage, server.handle⟩ := by
    intro servers
    induction servers with
    | nil => rfl
    | cons server servers ih =>
      rw [List.map_cons, List.map_cons, List.filter_cons_of_pos (by rfl), ih]
      rfl
  have hbound : (bindingsOf input).filter (·.package = mcpToolsPackage) =
      input.mcpServers.map fun server => ⟨mcpToolsPackage, server.handle⟩ := by
    have hartifacts : ¬ Worker.artifactToolsPackage = mcpToolsPackage := by decide
    have hmemory : ¬ Worker.memoryToolsPackage = mcpToolsPackage := by decide
    rw [bindingsOf, List.map_cons, List.map_cons,
      List.filter_cons_of_neg (by exact decide_eq_true_iff.not.mpr hartifacts),
      List.filter_cons_of_neg (by exact decide_eq_true_iff.not.mpr hmemory), hservers]
  rw [readAgentMcpHandles, readAgentWorkflowStep_definition hnum]
  change Except.ok (((bindingsOf input).filter (·.package = mcpToolsPackage)).map
    BoundCredential.handle) = _
  rw [hbound, List.map_map]
  rfl

end

end

/-! ### Tool grants -/

inductive GrantEffect
  | allow
  | ask
  | deny
  deriving DecidableEq, Repr

structure Grant where
  principalId : Id
  resource : String
  action : String
  effect : GrantEffect
  deriving DecidableEq, Repr

structure AgentRun where
  id : String
  address : String
  deriving DecidableEq, Repr

structure Principal where
  id : Id
  kind : String
  refId : String
  deriving DecidableEq, Repr

/-- What a tenant says of its runs. -/
structure RunRows where
  runs : List AgentRun
  principals : List Principal
  grants : List Grant
  deriving DecidableEq, Repr

def toolPrefix : String := "tool:"

/-- The principal of the run at an address. -/
def RunRows.principal? (rows : RunRows) (address : String) : Option Principal :=
  let run := rows.runs.find? (·.address = address)
  rows.principals.find? fun candidate =>
    candidate.kind = "workflow" ∧ some candidate.refId = run.map (·.id)

/-- The tool grants of the live run, in the order of their resources. -/
def readWorkerToolGrants (E : McpPackages) (rows : RunRows) (liveAddress : Option String) :
    Option (List Grant) := do
  let principal ← rows.principal? (← liveAddress)
  let tools := rows.grants.filter fun grant => grant.principalId = principal.id ∧
    toolPrefix.toList.isPrefixOf grant.resource.toList ∧ grant.action = "invoke"
  pure (tools.insertionSort fun a b => E.localeCompare a.resource b.resource ≠ .gt)

def effectRank : GrantEffect → ℕ
  | .allow => 0
  | .ask => 1
  | .deny => 2

/-- A grant beside those already held. -/
def holdGrant (byResource : OrderedMap String Grant) (grant : Grant) : OrderedMap String Grant :=
  match byResource.get grant.resource with
  | none => byResource.set grant.resource grant
  | some held =>
    if effectRank grant.effect > effectRank held.effect then byResource.set grant.resource grant
    else byResource

/-- One grant for each resource, with the effect that wins. -/
def effectiveToolGrants (tools : List Grant) : List Grant :=
  (tools.foldl holdGrant OrderedMap.empty).values

def carried (grant : Grant) : List ToolEffect :=
  match grant.effect with
  | .ask => []
  | .allow => [⟨grant.resource, .allow⟩]
  | .deny => [⟨grant.resource, .deny⟩]

def toolEffectsToCarry (tools : List Grant) : List ToolEffect :=
  (effectiveToolGrants tools).flatMap carried

/-- The map holds for each resource of the grants one whose effect none of them beats. -/
structure Wins (tools : List Grant) (byResource : OrderedMap String Grant) : Prop where
  held : ∀ resource grant, byResource.get resource = some grant → grant ∈ tools ∧
    grant.resource = resource ∧
      ∀ other ∈ tools, other.resource = resource → effectRank other.effect ≤ effectRank grant.effect
  all : ∀ grant ∈ tools, ∃ winner, byResource.get grant.resource = some winner

lemma wins_set {tools : List Grant} {m : OrderedMap String Grant} (h : Wins tools m)
    {grant : Grant} (hbeats : ∀ other ∈ tools, other.resource = grant.resource →
      effectRank other.effect ≤ effectRank grant.effect) :
    Wins (tools ++ [grant]) (m.set grant.resource grant) := by
  constructor
  · intro resource winner hget
    rw [OrderedMap.get_set] at hget
    split_ifs at hget with hres
    · obtain rfl := Option.some.inj hget
      subst hres
      refine ⟨by simp, rfl, fun other hother hsame => ?_⟩
      rcases List.mem_append.mp hother with hold | hnew
      · exact hbeats other hold hsame
      · rw [List.mem_singleton.mp hnew]
    · obtain ⟨hmem, hsame, hmax⟩ := h.held resource winner hget
      refine ⟨List.mem_append_left _ hmem, hsame, fun other hother hother' => ?_⟩
      rcases List.mem_append.mp hother with hold | hnew
      · exact hmax other hold hother'
      · rw [List.mem_singleton.mp hnew] at hother'
        exact absurd hother'.symm hres
  · intro other hother
    rw [OrderedMap.get_set]
    split_ifs with hres
    · exact ⟨grant, rfl⟩
    · rcases List.mem_append.mp hother with hold | hnew
      · exact h.all other hold
      · exact absurd (by rw [List.mem_singleton.mp hnew]) hres

lemma wins_holdGrant {tools : List Grant} {m : OrderedMap String Grant} (h : Wins tools m)
    (grant : Grant) : Wins (tools ++ [grant]) (holdGrant m grant) := by
  cases hget : m.get grant.resource with
  | none =>
    have hset : holdGrant m grant = m.set grant.resource grant := by rw [holdGrant, hget]
    rw [hset]
    refine wins_set h fun other hother hsame => ?_
    obtain ⟨winner, hwinner⟩ := h.all other hother
    rw [hsame, hget] at hwinner
    cases hwinner
  | some held =>
    obtain ⟨hmem, hres, hmax⟩ := h.held _ _ hget
    by_cases hrank : effectRank grant.effect > effectRank held.effect
    · have hset : holdGrant m grant = m.set grant.resource grant := by
        rw [holdGrant, hget]
        exact if_pos hrank
      rw [hset]
      refine wins_set h fun other hother hsame => ?_
      have := hmax other hother hsame
      omega
    · have hkeep : holdGrant m grant = m := by
        rw [holdGrant, hget]
        exact if_neg hrank
      rw [hkeep]
      constructor
      · intro resource winner hwinner
        obtain ⟨hmem', hres', hmax'⟩ := h.held resource winner hwinner
        refine ⟨List.mem_append_left _ hmem', hres', fun other hother hsame => ?_⟩
        rcases List.mem_append.mp hother with hold | hnew
        · exact hmax' other hold hsame
        · rw [List.mem_singleton.mp hnew] at hsame ⊢
          rw [← hsame, hget] at hwinner
          obtain rfl := Option.some.inj hwinner
          omega
      · intro other hother
        rcases List.mem_append.mp hother with hold | hnew
        · exact h.all other hold
        · rw [List.mem_singleton.mp hnew]
          exact ⟨held, hget⟩

lemma wins_foldl (tools : List Grant) {seen : List Grant} {m : OrderedMap String Grant}
    (h : Wins seen m) : Wins (seen ++ tools) (tools.foldl holdGrant m) := by
  induction tools generalizing seen m with
  | nil => simpa using h
  | cons grant tools ih => simpa using ih (wins_holdGrant h grant)

lemma wins_effective (tools : List Grant) :
    Wins tools (tools.foldl holdGrant OrderedMap.empty) := by
  have hempty : Wins [] OrderedMap.empty := ⟨fun _ _ h => by simp at h, fun _ h => by simp at h⟩
  simpa using wins_foldl tools hempty

/-- No grant denies a tool, and every tool has one that asks. -/
def AskGated (tools : List Grant) : Prop :=
  ∀ grant ∈ tools, grant.effect ≠ .deny ∧
    ∃ asks ∈ tools, asks.resource = grant.resource ∧ asks.effect = .ask

instance (tools : List Grant) : Decidable (AskGated tools) :=
  inferInstanceAs (Decidable (∀ grant ∈ tools, _ ∧ ∃ asks ∈ tools, _))

lemma mem_effectiveToolGrants {tools : List Grant} {grant : Grant} :
    grant ∈ effectiveToolGrants tools ↔
      (tools.foldl holdGrant OrderedMap.empty).get grant.resource = some grant := by
  rw [effectiveToolGrants, OrderedMap.values, List.mem_map]
  constructor
  · rintro ⟨⟨resource, winner⟩, hentry, rfl⟩
    have hget := OrderedMap.get_eq_some.2 hentry
    obtain ⟨-, rfl, -⟩ := (wins_effective tools).held _ _ hget
    exact hget
  · intro hget
    exact ⟨_, OrderedMap.get_eq_some.1 hget, rfl⟩

/-- **Nothing is carried** exactly when every tool is gated by an ask. -/
theorem toolEffectsToCarry_eq_nil_iff (tools : List Grant) :
    toolEffectsToCarry tools = [] ↔ AskGated tools := by
  have hcarried : ∀ grant, carried grant = [] ↔ grant.effect = .ask := by
    intro grant
    cases h : grant.effect <;> simp [carried, h]
  have hwins := wins_effective tools
  rw [toolEffectsToCarry, List.flatMap_eq_nil_iff]
  simp only [hcarried]
  constructor
  · intro h grant hgrant
    obtain ⟨winner, hwinner⟩ := hwins.all grant hgrant
    obtain ⟨hmem, hres, hmax⟩ := hwins.held _ _ hwinner
    have hask := h winner (mem_effectiveToolGrants.2 (by rw [hres]; exact hwinner))
    have hrank := hmax grant hgrant rfl
    refine ⟨fun hdeny => ?_, winner, hmem, hres, hask⟩
    rw [hdeny, hask] at hrank
    exact absurd hrank (by decide)
  · intro h winner hwinner
    obtain ⟨hmem, -, hmax⟩ := hwins.held _ _ (mem_effectiveToolGrants.1 hwinner)
    obtain ⟨hdeny, asks, hasks, hres, hask⟩ := h winner hmem
    have hrank := hmax asks hasks hres
    rw [hask] at hrank
    cases heffect : winner.effect with
    | ask => rfl
    | allow =>
      rw [heffect] at hrank
      exact absurd hrank (by decide)
    | deny => exact absurd heffect hdeny

end Workbench.Web
