import Workbench.DeferredTools.Match
import Workbench.Lib.OrderedMap
import Workbench.Lib.OrderedSet

/-!
The tools that a model is sent, and the deferred ones that its searches bring along.

A search surfaces whole namespaces. What is surfaced is never dropped and never moved, so the list
of one turn begins every later list.
-/

namespace Workbench.DeferredTools

open Workbench.Lib

variable {ν : Type}

/-- The name the director always keeps visible and watches for. -/
def toolSearchName : String := "tool_search"

def toolSearchDefinition : ToolDefinition ν where
  name := toolSearchName
  description :=
    "Search this agent's other tools by keyword. The request lists only some of the tools " ++
    "available; this one answers with the name, description and input schema of every tool " ++
    "matching the query, and those tools become callable on the next turn. An empty query lists " ++
    "them all. Search before saying a thing cannot be done."
  inputSchema := .object [("type", .string "object"),
    ("properties", .object [("query", .object [("type", .string "string")])]),
    ("required", .array [.string "query"])]

structure DeferredDirectorConfig where
  deferred : List String

structure DeferredToolSelection (ν : Type) where
  deferred : List (ToolDefinition ν)
  always : List (ToolDefinition ν)
  surfaced : OrderedSet String

variable (U : Unicode)

namespace DeferredToolSelection

def create (definitions : List (ToolDefinition ν)) (config : DeferredDirectorConfig) :
    DeferredToolSelection ν :=
  let deferred := selectByPatterns U definitions config.deferred
  let deferredNames := deferred.map (·.name)
  { deferred := deferred
    always := (definitions.filter fun definition =>
      definition.name ∉ deferredNames && definition.name ≠ toolSearchName) ++ [toolSearchDefinition]
    surfaced := .empty }

def surface (s : DeferredToolSelection ν) (query : String) : DeferredToolSelection ν :=
  let namespaces := (searchDefinitions U s.deferred query).map fun definition =>
    toolNamespace definition.name
  { s with
    surfaced := s.surfaced.insertAll ((s.deferred.filter fun definition =>
      toolNamespace definition.name ∈ namespaces).map (·.name)) }

/-- Of several definitions with one name the last counts. -/
def byName (s : DeferredToolSelection ν) : OrderedMap String (ToolDefinition ν) :=
  s.deferred.foldl (fun byName definition => byName.set definition.name definition) .empty

def tools (s : DeferredToolSelection ν) : List (ToolDefinition ν) :=
  s.always ++ s.surfaced.elements.filterMap s.byName.get

def surfaceAll (s : DeferredToolSelection ν) (queries : List String) : DeferredToolSelection ν :=
  queries.foldl (surface U) s

variable {U} {s : DeferredToolSelection ν} {query name : String} {queries : List String}
  {definition : ToolDefinition ν} {definitions : List (ToolDefinition ν)}
  {config : DeferredDirectorConfig}

/-! ### What a search surfaces -/

lemma mem_surface : name ∈ (s.surface U query).surfaced.elements ↔ name ∈ s.surfaced.elements ∨
    ∃ definition ∈ s.deferred, definition.name = name ∧
      ∃ found ∈ searchDefinitions U s.deferred query,
        toolNamespace found.name = toolNamespace definition.name := by
  rw [surface, OrderedSet.mem_insertAll]
  simp only [List.mem_map, List.mem_filter, decide_eq_true_eq]
  constructor
  · rintro (hold | ⟨definition, ⟨hdefinition, hfound⟩, hname⟩)
    · exact .inl hold
    · exact .inr ⟨definition, hdefinition, hname, hfound⟩
  · rintro (hold | ⟨definition, hdefinition, hname, hfound⟩)
    · exact .inl hold
    · exact .inr ⟨definition, ⟨hdefinition, hfound⟩, hname⟩

lemma get_foldl_byName (known : OrderedMap String (ToolDefinition ν)) :
    ((definitions.foldl (fun byName definition => byName.set definition.name definition) known).get
      name).isSome ↔ (known.get name).isSome ∨ name ∈ definitions.map (·.name) := by
  induction definitions generalizing known with
  | nil => simp
  | cons definition definitions ih =>
    rw [List.foldl_cons, ih, OrderedMap.get_set, List.map_cons, List.mem_cons]
    by_cases hname : name = definition.name
    · simp [hname]
    · simp [hname]

lemma isSome_byName : (s.byName.get name).isSome ↔ name ∈ s.deferred.map (·.name) := by
  rw [byName, get_foldl_byName]
  simp

/-- A definition that is found stands under its own name. -/
lemma name_of_byName (h : s.byName.get name = some definition) :
    definition.name = name ∧ definition ∈ s.deferred := by
  have hfold : ∀ (definitions : List (ToolDefinition ν))
      (known : OrderedMap String (ToolDefinition ν)),
      (∀ name definition, known.get name = some definition →
        definition.name = name ∧ definition ∈ s.deferred) → (∀ d ∈ definitions, d ∈ s.deferred) →
      ∀ name definition, (definitions.foldl (fun byName definition =>
        byName.set definition.name definition) known).get name = some definition →
          definition.name = name ∧ definition ∈ s.deferred := by
    intro definitions
    induction definitions with
    | nil => exact fun known hknown _ => hknown
    | cons first definitions ih =>
      intro known hknown hsub
      refine ih _ (fun name definition hget => ?_) fun d hd => hsub d (List.mem_cons_of_mem _ hd)
      rw [OrderedMap.get_set] at hget
      split at hget
      · next hname =>
        obtain rfl := Option.some.inj hget
        exact ⟨hname.symm, hsub first List.mem_cons_self⟩
      · exact hknown name definition hget
  exact hfold s.deferred .empty (fun _ _ h => by simp at h) (fun _ hd => hd) name definition h

/-! ### Append-only -/

@[simp] lemma deferred_surface : (s.surface U query).deferred = s.deferred := rfl

@[simp] lemma always_surface : (s.surface U query).always = s.always := rfl

@[simp] lemma byName_surface : (s.surface U query).byName = s.byName := rfl

lemma prefix_surface : s.tools <+: (s.surface U query).tools := by
  rw [tools, tools, always_surface, byName_surface]
  exact (List.prefix_append_right_inj _).mpr (OrderedSet.prefix_insertAll.filterMap _)

lemma prefix_surfaceAll : s.tools <+: (s.surfaceAll U queries).tools := by
  induction queries generalizing s with
  | nil => exact List.prefix_refl _
  | cons query queries ih => exact prefix_surface.trans ih

@[simp] lemma deferred_surfaceAll : (s.surfaceAll U queries).deferred = s.deferred := by
  induction queries generalizing s with
  | nil => rfl
  | cons query queries ih => exact ih

@[simp] lemma always_surfaceAll : (s.surfaceAll U queries).always = s.always := by
  induction queries generalizing s with
  | nil => rfl
  | cons query queries ih => exact ih

lemma surfaceAll_cons :
    s.surfaceAll U (query :: queries) = (s.surface U query).surfaceAll U queries :=
  rfl

lemma surfaceAll_append (earlier later : List String) :
    s.surfaceAll U (earlier ++ later) = (s.surfaceAll U earlier).surfaceAll U later :=
  List.foldl_append

/-- The name of a deferred definition is in the list once it is surfaced. -/
lemma mem_tools_of_surfaced (hname : name ∈ s.surfaced.elements)
    (hdeferred : name ∈ s.deferred.map (·.name)) : name ∈ s.tools.map (·.name) := by
  obtain ⟨definition, hget⟩ := Option.isSome_iff_exists.mp (isSome_byName.2 hdeferred)
  refine List.mem_map.mpr ⟨definition, ?_, (name_of_byName hget).1⟩
  exact List.mem_append_right _ (List.mem_filterMap.mpr ⟨name, hname, hget⟩)

/-- A query without tokens surfaces every deferred definition. -/
lemma mem_tools_of_no_tokens (hquery : tokenize U query = [])
    (hdeferred : name ∈ s.deferred.map (·.name)) :
    name ∈ (s.surface U query).tools.map (·.name) := by
  obtain ⟨definition, hdefinition, hname⟩ := List.mem_map.mp hdeferred
  refine mem_tools_of_surfaced (mem_surface.2 (.inr ⟨definition, hdefinition, hname, definition,
    ?_, rfl⟩)) hdeferred
  rwa [searchDefinitions_of_no_tokens hquery]

/-- A definition is deferred, or it is always in the list, or `tool_search` takes its place. -/
lemma mem_create (hdefinition : definition ∈ definitions) :
    definition.name ∈ (create U definitions config).deferred.map (·.name) ∨
      definition.name ∈ (create U definitions config).always.map (·.name) := by
  by_cases hdeferred : definition.name ∈ (create U definitions config).deferred.map (·.name)
  · exact .inl hdeferred
  refine .inr (List.mem_map.mpr ?_)
  by_cases hsearch : definition.name = toolSearchName
  · exact ⟨toolSearchDefinition, List.mem_append_right _ List.mem_cons_self, hsearch.symm⟩
  · refine ⟨definition, List.mem_append_left _ (List.mem_filter.mpr ⟨hdefinition, ?_⟩), rfl⟩
    simp only [Bool.and_eq_true, decide_eq_true_eq]
    exact ⟨hdeferred, hsearch⟩

/-- **The selection is append-only**: the list of any moment begins every later list, and after a
query without tokens every definition's name is in it. -/
theorem tools_append_only (definitions : List (ToolDefinition ν))
    (config : DeferredDirectorConfig) :
    (∀ earlier later, ((create U definitions config).surfaceAll U earlier).tools <+:
      ((create U definitions config).surfaceAll U (earlier ++ later)).tools) ∧
    ∀ earlier query, tokenize U query = [] → ∀ later, ∀ definition ∈ definitions,
      definition.name ∈ ((create U definitions config).surfaceAll U
        (earlier ++ query :: later)).tools.map (·.name) := by
  constructor
  · intro earlier later
    rw [surfaceAll_append]
    exact prefix_surfaceAll
  · intro earlier query hquery later definition hdefinition
    have hnow : definition.name ∈ (((create U definitions config).surfaceAll U earlier).surface U
        query).tools.map (·.name) := by
      rcases mem_create (U := U) hdefinition with hdeferred | halways
      · exact mem_tools_of_no_tokens hquery (by rwa [deferred_surfaceAll])
      · rw [tools, List.map_append, always_surface, always_surfaceAll]
        exact List.mem_append_left _ halways
    rw [surfaceAll_append, surfaceAll_cons]
    exact (prefix_surfaceAll.map _).subset hnow

/-- One visible tool and two deferred ones. -/
def shelf : List (ToolDefinition ℕ) :=
  [⟨"exa.search", "Search the web", .null⟩, ⟨"memory_write", "Keep a note", .null⟩,
    ⟨"mail_send", "Send a letter", .null⟩]

/-- The empty query brings along what the first search did not. -/
theorem tools_append_only_shelf :
    "mail_send" ∈ ((create ascii shelf ⟨["memory_*", "mail_*"]⟩).surfaceAll ascii
      (["note"] ++ "" :: ["web"])).tools.map (·.name) :=
  (tools_append_only shelf ⟨["memory_*", "mail_*"]⟩).2 ["note"] "" tokenize_empty ["web"]
    ⟨"mail_send", "Send a letter", .null⟩ (by simp [shelf])

end DeferredToolSelection

end Workbench.DeferredTools
