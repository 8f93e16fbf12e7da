import Workbench.DeferredTools.Selection

/-!
What the lists that a model is sent have in them.

A list is made of the definitions that are never deferred, of the search tool, and of what has been
surfaced. The search tool is put in whatever the patterns say, while a definition of that name is
deferred like any other. The visible patterns of the config are not read at all.
-/

namespace Workbench.DeferredTools

open Workbench.Lib

variable {ν : Type}

/-- The whole config. The selection is made from the deferred patterns. -/
structure DeferredDirectorPatterns extends DeferredDirectorConfig where
  visible : List String

namespace DeferredToolSelection

variable (U : Unicode)

/-- The selection of a config after a sequence of searches. -/
def after (definitions : List (ToolDefinition ν)) (config : DeferredDirectorConfig)
    (queries : List String) : DeferredToolSelection ν :=
  (create U definitions config).surfaceAll U queries

variable {U} {s : DeferredToolSelection ν} {name : String} {queries : List String}
  {definition : ToolDefinition ν} {definitions : List (ToolDefinition ν)}
  {config : DeferredDirectorConfig}

lemma mem_surfaceAll : name ∈ (s.surfaceAll U queries).surfaced.elements ↔
    name ∈ s.surfaced.elements ∨ ∃ query ∈ queries, ∃ definition ∈ s.deferred,
      definition.name = name ∧ ∃ found ∈ searchDefinitions U s.deferred query,
        toolNamespace found.name = toolNamespace definition.name := by
  induction queries generalizing s with
  | nil => simp [surfaceAll]
  | cons query queries ih =>
    rw [surfaceAll_cons, ih, mem_surface, deferred_surface]
    simp only [List.mem_cons, exists_eq_or_imp, or_assoc]

/-! ### Names that are listed twice -/

/-- Only deferred definitions are surfaced, and all of them are known by their names. -/
lemma names_surfaced (h : ∀ name ∈ s.surfaced.elements, name ∈ s.deferred.map (·.name)) :
    (s.surfaced.elements.filterMap s.byName.get).map (·.name) = s.surfaced.elements := by
  have hall : ∀ names : List String, (∀ name ∈ names, name ∈ s.deferred.map (·.name)) →
      (names.filterMap s.byName.get).map (·.name) = names := by
    intro names hnames
    induction names with
    | nil => rfl
    | cons name names ih =>
      have hknown := isSome_byName.2 (hnames name List.mem_cons_self)
      obtain ⟨definition, hget⟩ := Option.isSome_iff_exists.mp hknown
      have hrest := ih fun other hother => hnames other (List.mem_cons_of_mem _ hother)
      rw [List.filterMap_cons_some hget, List.map_cons, hrest, (name_of_byName hget).1]
  exact hall _ h

lemma deferred_of_surfaced (h : name ∈ (after U definitions config queries).surfaced.elements) :
    name ∈ (selectByPatterns U definitions config.deferred).map (·.name) := by
  rcases mem_surfaceAll.1 h with hempty | ⟨-, -, definition, hdefinition, hname, -⟩
  · cases hempty
  · exact List.mem_map.mpr ⟨definition, hdefinition, hname⟩

/-- The names of a list: those of the definitions that are never deferred, that of the search tool,
and those that have been surfaced. -/
lemma names_tools : (after U definitions config queries).tools.map (·.name) =
    ((definitions.filter fun definition =>
      definition.name ∉ (selectByPatterns U definitions config.deferred).map (·.name) &&
        definition.name ≠ toolSearchName).map (·.name) ++ [toolSearchName]) ++
      (after U definitions config queries).surfaced.elements := by
  have hdeferred : (after U definitions config queries).deferred =
      selectByPatterns U definitions config.deferred := deferred_surfaceAll
  have hsurfaced := names_surfaced (s := after U definitions config queries) fun name hname =>
    hdeferred ▸ deferred_of_surfaced hname
  rw [tools, List.map_append, hsurfaced, after, always_surfaceAll, create, List.map_append]
  rfl

/-- The names that are always listed. -/
lemma not_deferred_of_mem (h : name ∈ (definitions.filter fun definition =>
      definition.name ∉ (selectByPatterns U definitions config.deferred).map (·.name) &&
        definition.name ≠ toolSearchName).map (·.name)) :
    name ∉ (selectByPatterns U definitions config.deferred).map (·.name) ∧
      name ≠ toolSearchName := by
  obtain ⟨definition, hdefinition, rfl⟩ := List.mem_map.mp h
  have hkept := (List.mem_filter.mp hdefinition).2
  simpa only [Bool.and_eq_true, decide_eq_true_eq] using hkept

/-- No search finds a deferred tool in the namespace of the search tool, if that is deferred. -/
def SearchToolStays (U : Unicode) (definitions : List (ToolDefinition ν))
    (config : DeferredDirectorConfig) (queries : List String) : Prop :=
  ∀ definition ∈ selectByPatterns U definitions config.deferred, definition.name = toolSearchName →
    ∀ query ∈ queries,
      ∀ found ∈ searchDefinitions U (selectByPatterns U definitions config.deferred) query,
        toolNamespace found.name ≠ toolNamespace toolSearchName

lemma searchToolStays_iff : SearchToolStays U definitions config queries ↔
    toolSearchName ∉ (after U definitions config queries).surfaced.elements := by
  rw [after, mem_surfaceAll]
  constructor
  · rintro h (hempty | ⟨query, hquery, definition, hdefinition, hname, found, hfound, hsame⟩)
    · cases hempty
    · exact h definition hdefinition hname query hquery found hfound (hname ▸ hsame)
  · intro h definition hdefinition hname query hquery found hfound hsame
    exact h (.inr ⟨query, hquery, definition, hdefinition, hname, found, hfound, hname ▸ hsame⟩)

/-- **No name is listed twice** if and only if the search tool is not surfaced: it is in the list
already. -/
theorem names_nodup_iff (queries : List String) (h : (definitions.map (·.name)).Nodup) :
    ((after U definitions config queries).tools.map (·.name)).Nodup ↔
      SearchToolStays U definitions config queries := by
  rw [searchToolStays_iff, names_tools, List.nodup_append]
  constructor
  · rintro ⟨-, -, hcross⟩ hsurfaced
    exact hcross toolSearchName (by simp) _ hsurfaced rfl
  · intro hstays
    refine ⟨?_, (after U definitions config queries).surfaced.nodup, ?_⟩
    · refine List.nodup_append.mpr ⟨(List.filter_sublist.map _).nodup h, List.nodup_singleton _, ?_⟩
      intro name hname other hother
      rw [List.mem_singleton.mp hother]
      exact (not_deferred_of_mem hname).2
    · rintro name hname other hother rfl
      rcases List.mem_append.mp hname with hname | hname
      · exact (not_deferred_of_mem hname).1 (deferred_of_surfaced hother)
      · exact hstays (List.mem_singleton.mp hname ▸ hother)

/-- The tools of a worker: the search tool is one of them. -/
def worker : List (ToolDefinition ℕ) :=
  [⟨"exa.search", "Search the web", .null⟩, toolSearchDefinition]

/-- With the search tool visible the names stay apart. -/
theorem names_nodup_iff_worker :
    ((after ascii worker ⟨["exa.*"]⟩ ["web"]).tools.map (·.name)).Nodup ↔
      SearchToolStays ascii worker ⟨["exa.*"]⟩ ["web"] :=
  names_nodup_iff ["web"] (by decide)

/-- With all tools deferred, the search that lists them all lists the search tool twice. -/
theorem search_tool_listed_twice :
    (worker.map (·.name)).Nodup ∧
      (after ascii worker ⟨["*"]⟩ [""]).tools.map (·.name) =
        ["tool_search", "exa.search", "tool_search"] := by
  decide

/-! ### Tools that are promised -/

/-- The tool is in the list; for the search tool that is the definition the director has of it. -/
def IsListed (definition : ToolDefinition ν) (tools : List (ToolDefinition ν)) : Prop :=
  definition ∈ tools ∨ definition.name = toolSearchName ∧ toolSearchDefinition ∈ tools

def matchesAny (U : Unicode) (name : String) (patterns : List String) : Bool :=
  patterns.any (matchesNamePattern U name)

/-- A visible pattern names the tool, or no pattern does. -/
def Promised (U : Unicode) (config : DeferredDirectorPatterns) (name : String) : Prop :=
  matchesAny U name config.visible ∨ ¬ matchesAny U name config.deferred

lemma mem_selectByPatterns {patterns : List String} :
    definition ∈ selectByPatterns U definitions patterns ↔
      definition ∈ definitions ∧ matchesAny U definition.name patterns :=
  List.mem_filter

/-- A definition that is not deferred is in every list. -/
lemma isListed_of_not_deferred (hdefinition : definition ∈ definitions)
    (h : ¬ matchesAny U definition.name config.deferred) (queries : List String) :
    IsListed definition (after U definitions config queries).tools := by
  have halways : ∀ tool ∈ (create U definitions config).always,
      tool ∈ (after U definitions config queries).tools := by
    intro tool htool
    rw [tools, after, always_surfaceAll]
    exact List.mem_append_left _ htool
  by_cases hsearch : definition.name = toolSearchName
  · exact .inr ⟨hsearch, halways _ (List.mem_append_right _ List.mem_cons_self)⟩
  · refine .inl (halways _ (List.mem_append_left _ (List.mem_filter.mpr ⟨hdefinition, ?_⟩)))
    simp only [Bool.and_eq_true, decide_eq_true_eq]
    refine ⟨fun hname => ?_, hsearch⟩
    obtain ⟨other, hother, hsame⟩ := List.mem_map.mp hname
    exact h (hsame ▸ (mem_selectByPatterns.1 hother).2)

/-- **Every promised tool is in every list** if and only if none but the search tool is named by a
visible pattern and by a deferred one. -/
theorem promised_listed_iff (definitions : List (ToolDefinition ν))
    (config : DeferredDirectorPatterns) :
    (∀ queries, ∀ definition ∈ definitions, Promised U config definition.name →
      IsListed definition (after U definitions config.toDeferredDirectorConfig queries).tools) ↔
    ∀ definition ∈ definitions, definition.name ≠ toolSearchName →
      ¬ (matchesAny U definition.name config.visible ∧
        matchesAny U definition.name config.deferred) := by
  constructor
  · rintro h definition hdefinition hsearch ⟨hvisible, hdeferred⟩
    rcases h [] definition hdefinition (.inl hvisible) with hlisted | ⟨hname, -⟩
    · have hnames := List.mem_map_of_mem (f := (·.name)) hlisted
      rw [names_tools, List.mem_append, List.mem_append] at hnames
      rcases hnames with (hnames | hnames) | hnames
      · refine (not_deferred_of_mem hnames).1 (List.mem_map_of_mem ?_)
        exact mem_selectByPatterns.2 ⟨hdefinition, hdeferred⟩
      · exact hsearch (List.mem_singleton.mp hnames)
      · cases hnames
    · exact hsearch hname
  · intro h queries definition hdefinition hpromised
    by_cases hdeferred : matchesAny U definition.name config.deferred
    · have hvisible := hpromised.resolve_right (not_not.mpr hdeferred)
      have hsearch : definition.name = toolSearchName := by
        by_contra hsearch
        exact h definition hdefinition hsearch ⟨hvisible, hdeferred⟩
      refine .inr ⟨hsearch, ?_⟩
      rw [tools, after, always_surfaceAll]
      exact List.mem_append_left _ (List.mem_append_right _ List.mem_cons_self)
    · exact isListed_of_not_deferred hdefinition hdeferred queries

/-- A tool that a visible pattern names is not in the first list: it is deferred as well. -/
theorem visible_tool_hidden :
    Promised ascii ⟨⟨["*"]⟩, ["exa.*"]⟩ "exa.search" ∧
      (after ascii worker ⟨["*"]⟩ []).tools.map (·.name) = ["tool_search"] :=
  ⟨.inl (by decide), by decide⟩

end DeferredToolSelection

end Workbench.DeferredTools
