import Workbench.Lib.OrderedMap
import Workbench.Worker.Definition

/-!
The source tree of a worker-harness agent: the bundled entry called with the deploy's input, and the
definition's JSON beside it.

The entry is given its input as an expression. What the workflow that it builds says is what the
JSON says, unless there are tool effects, or a parameter with a key that an expression loses.
-/

namespace Workbench.Worker

open Workbench.Lib

variable {ν : Type}

/-! ### The tree -/

/-- The texts of the build. -/
structure BundleTexts where
  bundle : String
  directorsBundle : String
  buildExport : String

def workflowSourceEntryPath : String := "workflow.js"

def workflowSourceDirectorsPath : String := "directors.js"

def workflowSourceManifestPath : String := "package.json"

def workflowSourceDefinitionPath : String := "definition.json"

def manifestJson (packageName : String) : Json ν :=
  .object [("name", .string packageName), ("version", .string "0.0.0"), ("private", .bool true),
    ("type", .string "module"), ("interchange", .object [
      ("workflow", .string ("./" ++ workflowSourceEntryPath)),
      ("directors", .string ("./" ++ workflowSourceDirectorsPath))])]

/-- The entry up to the argument of its call, and after it. -/
def entryHead (texts : BundleTexts) : String :=
  texts.bundle ++ "\nexport default " ++ texts.buildExport ++ "("

def entryTail : String := ");\n"

def mcpServerJson (server : McpServerDeployment ν) : Json ν :=
  .object ([("handle", .string server.handle), ("url", .string server.url),
    ("credentialId", .string server.credentialId), ("providerName", .string server.providerName),
    ("credentialName", .string server.credentialName), ("tools", .array server.tools)] ++
      optional "allowWithoutAsk" server.allowWithoutAsk strings)

/-- The input as `JSON.stringify` sees it. -/
def inputJson (input : WorkerWorkflowInput ν) : Json ν :=
  .object [("workflowId", .string input.workflowId),
    ("triggerAddress", .string input.triggerAddress),
    ("inferencePreferences", .array (input.inferencePreferences.map preferenceJson)),
    ("systemPrompt", .string input.systemPrompt),
    ("hubCredentialId", .string input.hubCredentialId),
    ("mcpServers", .array (input.mcpServers.map mcpServerJson))]

section

variable (num : Numerals ν) (texts : BundleTexts)

def renderBundledWorkflowSourceTree (packageName : String) (buildInput : Json ν)
    (workflowJson : String) : OrderedMap String String :=
  OrderedMap.empty
    |>.set workflowSourceManifestPath
      (String.ofList (Json.write num 0 (manifestJson packageName : Json ν)) ++ "\n")
    |>.set workflowSourceEntryPath
      (entryHead texts ++ String.ofList (Json.stringify num buildInput) ++ entryTail)
    |>.set workflowSourceDirectorsPath texts.directorsBundle
    |>.set workflowSourceDefinitionPath (workflowJson ++ "\n")

def renderWorkerSourceTree (B : WorkerBundle ν) (packageName : String)
    (input : WorkerWorkflowInput ν) (toolEffects : List ToolEffect) : OrderedMap String String :=
  renderBundledWorkflowSourceTree num texts packageName (inputJson input)
    (String.ofList (Json.stringify num (buildWorkerDefinitionJson input B.toolNames toolEffects)))

end

/-! ### The entry's workflow -/

def string? : Json ν → Option String
  | .string text => some text
  | _ => none

def elements? : Json ν → Option (List (Json ν))
  | .array vs => some vs
  | _ => none

def members? : Json ν → Option (List (String × Json ν))
  | .object ms => some ms
  | _ => none

/-- A member that can be missing. -/
def optional? {α : Type} (key : String) (read : Json ν → Option α) (v : Json ν) :
    Option (Option α) :=
  match v.member key with
  | none => some none
  | some member => (read member).map some

def strings? (v : Json ν) : Option (List String) := (elements? v).bind fun vs => vs.mapM string?

def preferenceOf (v : Json ν) : Option (InferencePreference ν) := do
  let provider ← (v.member "provider").bind string?
  let model ← (v.member "model").bind string?
  let parameters ← optional? "parameters" members? v
  pure ⟨provider, model, parameters⟩

def mcpServerOf (v : Json ν) : Option (McpServerDeployment ν) := do
  let handle ← (v.member "handle").bind string?
  let url ← (v.member "url").bind string?
  let credentialId ← (v.member "credentialId").bind string?
  let providerName ← (v.member "providerName").bind string?
  let credentialName ← (v.member "credentialName").bind string?
  let tools ← (v.member "tools").bind elements?
  let allowWithoutAsk ← optional? "allowWithoutAsk" strings? v
  pure ⟨handle, url, credentialId, providerName, credentialName, tools, allowWithoutAsk⟩

/-- The input that the entry's call has for its argument. -/
def inputOf (v : Json ν) : Option (WorkerWorkflowInput ν) := do
  let workflowId ← (v.member "workflowId").bind string?
  let triggerAddress ← (v.member "triggerAddress").bind string?
  let inferencePreferences ← ((v.member "inferencePreferences").bind elements?).bind
    fun vs => vs.mapM preferenceOf
  let systemPrompt ← (v.member "systemPrompt").bind string?
  let hubCredentialId ← (v.member "hubCredentialId").bind string?
  let mcpServers ← ((v.member "mcpServers").bind elements?).bind fun vs => vs.mapM mcpServerOf
  pure ⟨workflowId, triggerAddress, inferencePreferences, systemPrompt, hubCredentialId,
    mcpServers⟩

/-- The text of the argument in an entry of this build. -/
def argumentOf (texts : BundleTexts) (entry : String) : Option (List Char) :=
  let rest := entry.toList.drop (entryHead texts).toList.length
  let argument := rest.take (rest.length - entryTail.toList.length)
  if entry.toList = (entryHead texts).toList ++ (argument ++ entryTail.toList) then some argument
  else none

/-- The workflow that an entry of this build exports: its argument is an expression. -/
def runEntry (num : Numerals ν) (texts : BundleTexts) (B : WorkerBundle ν) (entry : String) :
    Except String (WorkflowDefinition ν) :=
  match ((argumentOf texts entry).bind (Json.parse num)).bind fun v => inputOf v.literal with
  | some input => buildWorkerWorkflow B input
  | none => .error "the entry's call has no such input"

/-! ### Agreement -/

lemma argumentOf_entry (texts : BundleTexts) (argument : List Char) :
    argumentOf texts (entryHead texts ++ String.ofList argument ++ entryTail) = some argument := by
  have htext : (entryHead texts ++ String.ofList argument ++ entryTail).toList =
      (entryHead texts).toList ++ (argument ++ entryTail.toList) := by
    simp [String.toList_append]
  have hrest : ((entryHead texts).toList ++ (argument ++ entryTail.toList)).drop
      (entryHead texts).toList.length = argument ++ entryTail.toList :=
    List.drop_left
  have hargument : (argument ++ entryTail.toList).take
      ((argument ++ entryTail.toList).length - entryTail.toList.length) = argument := by
    rw [List.length_append, Nat.add_sub_cancel, List.take_left]
  simp only [argumentOf, htext, hrest, hargument, if_true]

/-- What is left of a preference when it has been an expression. -/
def InferencePreference.evaluated (preference : InferencePreference ν) : InferencePreference ν :=
  { preference with parameters := preference.parameters.map Json.literalMembers }

def McpServerDeployment.evaluated (server : McpServerDeployment ν) : McpServerDeployment ν :=
  { server with tools := Json.literalElements server.tools }

def WorkerWorkflowInput.evaluated (input : WorkerWorkflowInput ν) : WorkerWorkflowInput ν :=
  { input with
    inferencePreferences := input.inferencePreferences.map (·.evaluated)
    mcpServers := input.mcpServers.map (·.evaluated) }

lemma mapM_literalElements {α : Type} {json : α → Json ν} {read : Json ν → Option α} {f : α → α}
    (h : ∀ a, read (json a).literal = some (f a)) (as : List α) :
    (Json.literalElements (as.map json)).mapM read = some (as.map f) := by
  induction as with
  | nil => rfl
  | cons a as ih =>
    rw [List.map_cons, Json.literalElements, List.mapM_cons, h, ih]
    rfl

lemma preferenceOf_literal (preference : InferencePreference ν) :
    preferenceOf (preferenceJson preference).literal = some preference.evaluated := by
  obtain ⟨provider, model, parameters⟩ := preference
  cases parameters <;>
    simp [preferenceOf, preferenceJson, optional, optional?, Json.literal, Json.literalMembers,
      Json.protoKey, Json.member, string?, members?, InferencePreference.evaluated]

lemma literal_strings (texts : List String) : (strings texts : Json ν).literal = strings texts := by
  have helements : Json.literalElements (texts.map .string : List (Json ν)) =
      texts.map .string := by
    induction texts with
    | nil => rfl
    | cons text texts ih => rw [List.map_cons, Json.literalElements, Json.literal, ih]
  rw [strings, Json.literal, helements]

lemma strings?_strings (texts : List String) : strings? (strings texts : Json ν) = some texts := by
  have hmapM : (texts.map .string : List (Json ν)).mapM string? = some texts := by
    induction texts with
    | nil => rfl
    | cons text texts ih =>
      rw [List.map_cons, List.mapM_cons, ih]
      rfl
  exact hmapM

lemma mcpServerOf_literal (server : McpServerDeployment ν) :
    mcpServerOf (mcpServerJson server).literal = some server.evaluated := by
  obtain ⟨handle, url, credentialId, providerName, credentialName, tools, allowWithoutAsk⟩ := server
  cases allowWithoutAsk <;>
    simp [mcpServerOf, mcpServerJson, optional, optional?, Json.literal, Json.literalMembers,
      Json.protoKey, Json.member, string?, elements?, McpServerDeployment.evaluated,
      literal_strings, strings?_strings]

/-- The argument of the call is the input, but for what an expression loses. -/
lemma inputOf_literal (input : WorkerWorkflowInput ν) :
    inputOf (inputJson input).literal = some input.evaluated := by
  have hpreferences := mapM_literalElements preferenceOf_literal input.inferencePreferences
  have hservers := mapM_literalElements mcpServerOf_literal input.mcpServers
  simp [inputOf, inputJson, Json.literal, Json.literalMembers, Json.protoKey, Json.member, string?,
    elements?, hpreferences, hservers, WorkerWorkflowInput.evaluated]

/-- **The workflow without its functions is the definition of its input**, without tool effects. -/
lemma project_of_build {B : WorkerBundle ν} {input : WorkerWorkflowInput ν}
    {workflow : WorkflowDefinition ν} (h : buildWorkerWorkflow B input = .ok workflow) :
    workflow.project = buildWorkerDefinitionJson input B.toolNames [] := by
  unfold buildWorkerWorkflow at h
  split_ifs at h
  obtain rfl := Except.ok.inj h
  simp [WorkflowDefinition.project, WorkflowStep.project, AgentDefinition.project,
    buildWorkerDefinitionJson, defineWorkflow, optional, triggerJson, strings, workerStepId]

lemma preferenceJson_evaluated_iff (preference : InferencePreference ν) :
    preferenceJson preference = preferenceJson preference.evaluated ↔
      ∀ ms, preference.parameters = some ms → Json.PlainMembers ms := by
  obtain ⟨provider, model, parameters⟩ := preference
  cases parameters with
  | none => simp [InferencePreference.evaluated]
  | some ms =>
    simp only [preferenceJson, optional, InferencePreference.evaluated, Option.map_some,
      Option.elim_some, Json.object.injEq, List.append_cancel_left_eq, List.cons.injEq,
      Prod.mk.injEq, true_and, and_true, Option.some.injEq, forall_eq']
    rw [eq_comm, Json.literalMembers_eq_self_iff]

/-- No parameter of an inference preference has, at any depth, a key that an expression loses. -/
def PlainParameters (input : WorkerWorkflowInput ν) : Prop :=
  ∀ preference ∈ input.inferencePreferences, ∀ ms, preference.parameters = some ms →
    Json.PlainMembers ms

lemma map_preferenceJson_evaluated_iff (preferences : List (InferencePreference ν)) :
    preferences.map preferenceJson = (preferences.map (·.evaluated)).map preferenceJson ↔
      ∀ preference ∈ preferences, ∀ ms, preference.parameters = some ms →
        Json.PlainMembers ms := by
  rw [List.map_map, List.map_inj_left]
  exact forall₂_congr fun preference _ => preferenceJson_evaluated_iff preference

/-- The definition that is written is that of the evaluated input without tool effects. -/
lemma definition_evaluated_iff (input : WorkerWorkflowInput ν) (toolNames : WorkerToolNames)
    (toolEffects : List ToolEffect) :
    buildWorkerDefinitionJson input toolNames toolEffects =
      buildWorkerDefinitionJson input.evaluated toolNames [] ↔
    toolEffects = [] ∧ PlainParameters input := by
  have hbindings : (input.mcpServers.map (·.evaluated)).map mcpServerCredentialBinding =
      input.mcpServers.map mcpServerCredentialBinding := by
    rw [List.map_map]
    rfl
  have hcredentials : ((input.mcpServers.map (·.evaluated)).map fun server =>
      mcpServerCredentialUseRequirement server.credentialId) =
      input.mcpServers.map fun server => mcpServerCredentialUseRequirement server.credentialId := by
    rw [List.map_map]
    rfl
  have hhandles : (input.mcpServers.map (·.evaluated)).map (·.handle) =
      input.mcpServers.map (·.handle) := by
    rw [List.map_map]
    rfl
  rw [PlainParameters, ← map_preferenceJson_evaluated_iff]
  simp only [buildWorkerDefinitionJson, WorkerWorkflowInput.evaluated, hbindings, hcredentials,
    hhandles, Json.object.injEq, Json.array.injEq, List.cons.injEq, Prod.mk.injEq, true_and,
    and_true, List.map_cons, List.map_append, List.map_nil, List.append_nil,
    List.append_right_eq_self, List.map_eq_nil_iff]

section

variable {num : Numerals ν} (hnum : ∀ n, num.Reads n) (texts : BundleTexts) (B : WorkerBundle ν)
  (packageName : String) (input : WorkerWorkflowInput ν) (toolEffects : List ToolEffect)

include hnum in
/-- The entry of a tree builds the workflow of the evaluated input. -/
lemma runEntry_rendered : ((renderWorkerSourceTree num texts B packageName input toolEffects).get
    workflowSourceEntryPath).map (runEntry num texts B) =
      some (buildWorkerWorkflow B input.evaluated) := by
  have hentry : (renderWorkerSourceTree num texts B packageName input toolEffects).get
      workflowSourceEntryPath = some (entryHead texts ++
        String.ofList (Json.stringify num (inputJson input)) ++ entryTail) := by
    simp [renderWorkerSourceTree, renderBundledWorkflowSourceTree, OrderedMap.get_set,
      workflowSourceEntryPath, workflowSourceDefinitionPath, workflowSourceDirectorsPath]
  have hparse : Json.parse num (Json.stringify num (inputJson input)) = some (inputJson input) := by
    simpa using @Json.parse_stringify _ num (inputJson input) []
      (Json.reads_of_numerals hnum (inputJson input)) (by simp)
  rw [hentry, Option.map_some, runEntry, argumentOf_entry, Option.bind_some, hparse,
    Option.bind_some, inputOf_literal]

lemma definition_rendered : (renderWorkerSourceTree num texts B packageName input toolEffects).get
    workflowSourceDefinitionPath = some (String.ofList (Json.stringify num
      (buildWorkerDefinitionJson input B.toolNames toolEffects)) ++ "\n") := by
  simp [renderWorkerSourceTree, renderBundledWorkflowSourceTree]

include hnum in
/-- The definition of a tree is read as it was built. -/
lemma parse_definition : ((renderWorkerSourceTree num texts B packageName input toolEffects).get
    workflowSourceDefinitionPath).bind (fun text => Json.parse num text.toList) =
      some (buildWorkerDefinitionJson input B.toolNames toolEffects) := by
  have hblank : ∀ c ∈ ['\n'], Json.isWhitespace c := by
    intro c hc
    obtain rfl := List.mem_singleton.mp hc
    rfl
  rw [definition_rendered, Option.bind_some, String.toList_append, String.toList_ofList]
  exact Json.parse_stringify (Json.reads_of_numerals hnum _) hblank

end

/-- **The two renderings agree** exactly when there is no tool effect and no parameter of an
inference preference has a key `__proto__`: whenever the entry of a tree builds its workflow, that
is what the definition in the tree says. -/
theorem definition_agrees_iff {ν : Type} {num : Numerals ν} (hnum : ∀ n, num.Reads n)
    (texts : BundleTexts) (B : WorkerBundle ν) (packageName : String)
    (input : WorkerWorkflowInput ν) (toolEffects : List ToolEffect)
    {workflow : WorkflowDefinition ν}
    (h : ((renderWorkerSourceTree num texts B packageName input toolEffects).get
      workflowSourceEntryPath).map (runEntry num texts B) = some (.ok workflow)) :
    ((renderWorkerSourceTree num texts B packageName input toolEffects).get
        workflowSourceDefinitionPath).bind (fun text => Json.parse num text.toList) =
      some workflow.project ↔
    toolEffects = [] ∧ PlainParameters input := by
  have hbuild : buildWorkerWorkflow B input.evaluated = .ok workflow := by
    rw [runEntry_rendered hnum] at h
    exact Option.some.inj h
  rw [parse_definition hnum, project_of_build hbuild, Option.some.injEq]
  exact definition_evaluated_iff input B.toolNames toolEffects

/-- Natural numbers, in decimals. -/
def decimals : Numerals ℕ := ⟨NumberText.digits, fun cs => (NumberText.digitsOf 10 cs).getD 0⟩

lemma decimals_reads (n : ℕ) : decimals.Reads n where
  numeral := (Json.isNumeral_digits n).1
  chars := (Json.isNumeral_digits n).2
  read := by
    change (NumberText.digitsOf 10 (NumberText.digits n)).getD 0 = n
    rw [NumberText.digitsOf_digits]
    rfl

/-- An agent with one preference, which has a parameter. -/
def tempered : WorkerWorkflowInput ℕ :=
  ⟨"scout", "scout@acme.example", [⟨"openai", "large", some [("temperature", .number 1)]⟩],
    "Look around.", "7", []⟩

def someTexts : BundleTexts := ⟨"bundle", "directors", "buildWorkerWorkflow"⟩

def someBundle : WorkerBundle ℕ := ⟨["mail"], ⟨["mail.send"], ["memory.recall"]⟩, fun _ => true⟩

lemma tempered_builds : ∃ workflow,
    buildWorkerWorkflow someBundle tempered.evaluated = .ok workflow := by
  simp [buildWorkerWorkflow, tempered, someBundle, WorkerWorkflowInput.evaluated]

theorem definition_agrees_iff_tempered : ∃ workflow,
    ((renderWorkerSourceTree decimals someTexts someBundle "@workbench-agent/scout" tempered []).get
      workflowSourceEntryPath).map (runEntry decimals someTexts someBundle) = some (.ok workflow) ∧
    ((renderWorkerSourceTree decimals someTexts someBundle "@workbench-agent/scout" tempered []).get
      workflowSourceDefinitionPath).bind (fun text => Json.parse decimals text.toList) =
        some workflow.project := by
  obtain ⟨workflow, hbuild⟩ := tempered_builds
  have hrun := (runEntry_rendered decimals_reads someTexts someBundle "@workbench-agent/scout"
    tempered []).trans (congrArg some hbuild)
  refine ⟨workflow, hrun, (definition_agrees_iff decimals_reads someTexts someBundle _ tempered []
    hrun).mpr ⟨rfl, ?_⟩⟩
  simp [PlainParameters, tempered, Json.PlainMembers, Json.Plain, Json.protoKey]

/-- **A tool effect is in the definition and not in the workflow.** -/
theorem definition_not_agrees : ∃ workflow,
    ((renderWorkerSourceTree decimals someTexts someBundle "@workbench-agent/scout" tempered
      [⟨"tool:mail.send", .allow⟩]).get workflowSourceEntryPath).map
        (runEntry decimals someTexts someBundle) = some (.ok workflow) ∧
    ((renderWorkerSourceTree decimals someTexts someBundle "@workbench-agent/scout" tempered
      [⟨"tool:mail.send", .allow⟩]).get workflowSourceDefinitionPath).bind
        (fun text => Json.parse decimals text.toList) ≠ some workflow.project := by
  obtain ⟨workflow, hbuild⟩ := tempered_builds
  refine ⟨workflow, (runEntry_rendered decimals_reads ..).trans (congrArg some hbuild), ?_⟩
  rw [parse_definition decimals_reads, project_of_build hbuild, ne_eq, Option.some.injEq,
    definition_evaluated_iff]
  simp

end Workbench.Worker
