import Workbench.Web.McpServers
import Workbench.Worker.SourceTree

/-!
What a deploy of a hand-authored agent is made of: its name, its prompt and its slug, checked, and
the servers that its handles stand for in the workspace's catalog.
-/

namespace Workbench.Web

open Workbench.Lib
open Workbench.Worker (McpServerDeployment InferencePreference ToolEffect CarriedEffect BundleTexts
  WorkerBundle WorkerWorkflowInput renderWorkerSourceTree)

/-! ### Slugs -/

def slugMaxLength : ℕ := 64

def isSlugChar (c : Char) : Bool := ('a' ≤ c && c ≤ 'z') || ('0' ≤ c && c ≤ '9')

/-- `SLUG_PATTERN`: words of such characters, with single hyphens between them. What is left of a
slug is read in a word or before one. -/
def slugPattern (inWord : Bool) : List Char → Bool
  | [] => inWord
  | c :: cs =>
    if isSlugChar c then slugPattern true cs else inWord && c = '-' && slugPattern false cs

def isValidSlug (s : String) : Bool := s.length ≤ slugMaxLength && slugPattern false s.toList

/-- Every run of other characters is one hyphen. -/
def hyphenated (inRun : Bool) : List Char → List Char
  | [] => []
  | c :: cs =>
    if isSlugChar c then c :: hyphenated false cs
    else if inRun then hyphenated true cs
    else '-' :: hyphenated true cs

def withoutHyphens (cs : List Char) : List Char := (cs.dropWhile (· = '-')).rdropWhile (· = '-')

/-- `String.prototype.trim` -/
def trimmed (text : String) : String := String.ofList (NumberText.trim text.toList)

/-! ### Source assets -/

def agentAssetHead : String := "agent-"

def agentAssetTail : String := "-source"

def agentDeploySourceAssetName (slug : String) : String := agentAssetHead ++ slug ++ agentAssetTail

def workerSourceAssetName : String := "worker-deploy-source"

/-- `.` of a regular expression -/
def isLineEnd (c : Char) : Bool := [0x0a, 0x0d, 0x2028, 0x2029].contains c.toNat

/-- What `^agent-(.+)-source$` matches in a name. -/
def agentSlugFromSourceAssetName (assetName : String) : Option String :=
  let middle := (assetName.toList.drop agentAssetHead.length).take
    (assetName.length - agentAssetHead.length - agentAssetTail.length)
  if assetName.toList = agentAssetHead.toList ++ (middle ++ agentAssetTail.toList) ∧
      middle ≠ [] ∧ middle.all (!isLineEnd ·) then some (String.ofList middle)
  else none

/-! ### The input of a deploy -/

/-- What the build and the packages around this code give a deploy. -/
structure AgentBuild (ν : Type) where
  num : Numerals ν
  texts : BundleTexts
  bundle : WorkerBundle ν
  /-- a name in its compatibility decomposition, without the marks, in lower case -/
  ascii : String → String
  /-- a stored tool as it is written -/
  toolJson : McpTool → Json ν
  workerSystemPrompt : String

structure NewAgentInput where
  name : String
  systemPrompt : String
  slug : Option String := none
  mcpHandles : Option (List String) := none
  schedule : Option String := none
  toolEffects : Option (List ToolEffect) := none
  roles : Option (List String) := none
  redeploy : Bool := false

/-- A name, a prompt and a slug that a deploy goes on with. -/
structure CheckedAgent where
  name : String
  systemPrompt : String
  slug : String
  named : name ≠ ""
  prompted : systemPrompt ≠ ""
  bare : trimmed systemPrompt = systemPrompt
  valid : isValidSlug slug

def CheckedAgent.assetName (agent : CheckedAgent) : String := agentDeploySourceAssetName agent.slug

def CheckedAgent.packageName (agent : CheckedAgent) : String := "@workbench-agent/" ++ agent.slug

lemma trimmed_trimmed (text : String) : trimmed (trimmed text) = trimmed text := by
  rw [trimmed, trimmed, String.toList_ofList, NumberText.trim_trim]

variable {ν : Type} (P : AgentBuild ν)

def slugify (name : String) : String :=
  String.ofList (withoutHyphens ((hyphenated false (P.ascii name).toList).take slugMaxLength))

/-- The checks of a deploy before its first request. -/
def checkAgent (input : NewAgentInput) : Except String CheckedAgent :=
  if hname : trimmed input.name = "" then .error "an agent needs a name"
  else if hprompt : trimmed input.systemPrompt = "" then
    .error "an agent needs a system prompt"
  else if hslug : isValidSlug (input.slug.getD (slugify P (trimmed input.name))) then
    .ok ⟨trimmed input.name, trimmed input.systemPrompt, _, hname, hprompt, trimmed_trimmed _,
      hslug⟩
  else .error "this name doesn't produce a usable agent address"

/-! ### Servers -/

/-- Only what a server itself says is read-only goes without an ask. -/
def readOnlyToolNames (server : McpServer) : List String :=
  (server.tools.filter (·.readOnlyHint = some true)).map fun tool =>
    server.handle ++ "." ++ tool.name

def toMcpServerDeployment (server : McpServer) : McpServerDeployment ν where
  handle := server.handle
  url := server.url
  credentialId := toString server.credentialId
  providerName := mcpProviderName server.handle
  credentialName := mcpCredentialName server.handle
  tools := server.tools.map P.toolJson
  allowWithoutAsk :=
    if (readOnlyToolNames server).length > 0 then some (readOnlyToolNames server) else none

/-- The server that a handle stands for. -/
def resolveMcpServerDeployment (catalog : List McpServer) (handle : String) :
    Except String (McpServerDeployment ν) :=
  match catalog.find? (·.handle = handle) with
  | none => .error ("the " ++ handle ++ " server is not in this workspace's catalog")
  | some server => .ok (toMcpServerDeployment P server)

def resolveMcpServerDeployments (catalog : List McpServer) (handles : List String) :
    Except String (List (McpServerDeployment ν)) :=
  handles.mapM (resolveMcpServerDeployment P catalog)

/-! ### The definition that is deployed -/

def agentWorkflowInput (agent : CheckedAgent) (domain : String)
    (declaredSources : List (InferencePreference ν)) (hubCredentialId : String)
    (mcpServers : List (McpServerDeployment ν)) : WorkerWorkflowInput ν where
  workflowId := agent.slug
  triggerAddress := agent.slug ++ "@" ++ domain
  inferencePreferences := declaredSources
  systemPrompt := agent.systemPrompt
  hubCredentialId := hubCredentialId
  mcpServers := mcpServers

/-- What a person has set of an agent. -/
structure AgentConfig (ν : Type) where
  systemPrompt : String
  mcpServers : List (McpServerDeployment ν)
  toolEffects : List ToolEffect

/-- What a deploy of the input carries, in a workspace with this catalog. -/
def agentConfig (catalog : List McpServer) (input : NewAgentInput) :
    Except String (AgentConfig ν) := do
  let agent ← checkAgent P input
  let mcpServers ← resolveMcpServerDeployments P catalog (input.mcpHandles.getD [])
  pure ⟨agent.systemPrompt, mcpServers, input.toolEffects.getD []⟩

/-! ### Names -/

lemma slugPattern_chars {cs : List Char} {inWord : Bool} (h : slugPattern inWord cs) :
    ∀ c ∈ cs, isSlugChar c ∨ c = '-' := by
  induction cs generalizing inWord with
  | nil => simp
  | cons c cs ih =>
    by_cases hc : isSlugChar c
    · simp only [slugPattern, hc, if_true] at h
      simpa [hc] using ih h
    · simp only [slugPattern, hc, Bool.false_eq_true, if_false, Bool.and_eq_true,
        decide_eq_true_eq] at h
      simpa [h.1.2] using ih h.2

lemma isLineEnd_of_isSlugChar {c : Char} (h : isSlugChar c ∨ c = '-') : isLineEnd c = false := by
  rcases h with h | rfl
  · simp only [isSlugChar, Bool.or_eq_true, Bool.and_eq_true, decide_eq_true_eq] at h
    have hbounds : (97 ≤ c.toNat ∧ c.toNat ≤ 122) ∨ (48 ≤ c.toNat ∧ c.toNat ≤ 57) := h
    simp only [isLineEnd, List.contains_eq_mem, decide_eq_false_iff_not, List.mem_cons,
      List.not_mem_nil, or_false, not_or]
    omega
  · rfl

/-- The name of a source asset gives its slug back. -/
lemma agentSlugFromSourceAssetName_name {slug : String} (h : isValidSlug slug) :
    agentSlugFromSourceAssetName (agentDeploySourceAssetName slug) = some slug := by
  simp only [isValidSlug, Bool.and_eq_true, decide_eq_true_eq] at h
  have hne : slug.toList ≠ [] := by
    intro hnil
    simp [hnil, slugPattern] at h
  have hlines : slug.toList.all (!isLineEnd ·) := List.all_eq_true.mpr fun c hc => by
    simp [isLineEnd_of_isSlugChar (slugPattern_chars h.2 c hc)]
  have hlist : (agentDeploySourceAssetName slug).toList =
      agentAssetHead.toList ++ (slug.toList ++ agentAssetTail.toList) := by
    simp [agentDeploySourceAssetName, String.toList_append]
  have hmiddle : ((agentDeploySourceAssetName slug).toList.drop agentAssetHead.length).take
      ((agentDeploySourceAssetName slug).length - agentAssetHead.length - agentAssetTail.length) =
        slug.toList := by
    have hlength : (agentDeploySourceAssetName slug).length - agentAssetHead.length -
        agentAssetTail.length = slug.toList.length := by
      rw [← String.length_toList, hlist]
      simp only [List.length_append, String.length_toList]
      omega
    rw [hlength, hlist, ← String.length_toList, List.drop_left, List.take_left]
  unfold agentSlugFromSourceAssetName
  simp only [hmiddle]
  rw [if_pos ⟨hlist, hne, hlines⟩, String.ofList_toList]

/-! ### Deploys again -/

/-- What a deploy under a known prompt and slug carries. -/
lemma agentConfig_of_checked (agent : CheckedAgent) (input : NewAgentInput)
    (hprompt : input.systemPrompt = agent.systemPrompt) (hslug : input.slug = some agent.slug)
    (hname : trimmed input.name ≠ "") (catalog : List McpServer) :
    agentConfig P catalog input =
      (resolveMcpServerDeployments P catalog (input.mcpHandles.getD [])).map fun mcpServers =>
        ⟨agent.systemPrompt, mcpServers, input.toolEffects.getD []⟩ := by
  have hbare : trimmed input.systemPrompt = agent.systemPrompt := by rw [hprompt, agent.bare]
  have hvalid : isValidSlug (input.slug.getD (slugify P (trimmed input.name))) := by
    rw [hslug, Option.getD_some]
    exact agent.valid
  have hprompted : ¬ trimmed input.systemPrompt = "" := by
    rw [hbare]
    exact agent.prompted
  rw [agentConfig, checkAgent, dif_neg hname, dif_neg hprompted, dif_pos hvalid]
  simp only [hbare]
  cases resolveMcpServerDeployments P catalog (input.mcpHandles.getD []) <;> rfl

lemma agentConfig_of_blank (input : NewAgentInput) (hname : trimmed input.name = "")
    (catalog : List McpServer) :
    agentConfig P catalog input = .error "an agent needs a name" := by
  rw [agentConfig, checkAgent, dif_pos hname]
  rfl

variable {P} in
/-- Servers have the handles they were asked for by. -/
lemma handles_of_resolve {catalog : List McpServer} {handles : List String}
    {mcpServers : List (McpServerDeployment ν)}
    (h : resolveMcpServerDeployments P catalog handles = .ok mcpServers) :
    mcpServers.map (·.handle) = handles := by
  induction handles generalizing mcpServers with
  | nil =>
    obtain rfl := Except.ok.inj h
    rfl
  | cons handle handles ih =>
    rw [resolveMcpServerDeployments, List.mapM_cons] at h
    cases hserver : resolveMcpServerDeployment P catalog handle with
    | error e =>
      rw [hserver] at h
      cases h
    | ok server =>
      cases hrest : handles.mapM (resolveMcpServerDeployment P catalog) with
      | error e =>
        rw [hserver, hrest] at h
        cases h
      | ok rest =>
        rw [hserver, hrest] at h
        obtain rfl := Except.ok.inj h
        rw [List.map_cons, ih hrest]
        unfold resolveMcpServerDeployment at hserver
        cases hfind : catalog.find? (·.handle = handle) with
        | none => simp [hfind] at hserver
        | some found =>
          have hhandle := List.find?_some hfind
          simp only [hfind, Except.ok.injEq] at hserver
          subst hserver
          simpa [toMcpServerDeployment] using hhandle

end Workbench.Web
