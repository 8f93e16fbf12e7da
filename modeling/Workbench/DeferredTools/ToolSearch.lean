import Workbench.DeferredTools.Selection

/-!
The `tool_search` tool, and the director that watches for its calls.

Each reads the arguments of a call in its own way: the tool checks them against a schema and
answers an error, the director takes whatever is no text for the empty query.
-/

namespace Workbench.DeferredTools

open Workbench.Lib

structure ToolCall (ν : Type) where
  id : String
  name : String
  arguments : Json ν

structure ToolResult where
  callId : String
  content : String
  isError : Bool

variable {ν : Type} (U : Unicode)

/-! ### The tool -/

/-- The query of arguments that pass `{ query: string }`. -/
def searchInput (arguments : Json ν) : Option String :=
  match arguments.member "query" with
  | some (.string query) => some query
  | _ => none

/-- An answer of the tool, before it is put into words. -/
inductive SearchAnswer (ν : Type)
  | error (summary : String)
  | catalog (definitions : List (ToolDefinition ν))
  | found (definitions : List (ToolDefinition ν)) (query : String)

namespace SearchAnswer

/-- The tools that an answer names. -/
def named : SearchAnswer ν → List (ToolDefinition ν)
  | error _ => []
  | catalog definitions => definitions
  | found definitions _ => definitions

def isError : SearchAnswer ν → Bool
  | error _ => true
  | _ => false

def content (num : Numerals ν) : SearchAnswer ν → String
  | error summary => "tool_search takes \x7b \"query\": string \x7d: " ++ summary
  | catalog definitions => renderCatalogLines definitions
  | found definitions query => renderMatches num definitions query

end SearchAnswer

/-- `summary` is what the schema library says of arguments that do not pass. -/
def searchAnswer (summary : Json ν → String) (catalog : List (ToolDefinition ν))
    (arguments : Json ν) : SearchAnswer ν :=
  match searchInput arguments with
  | none => .error (summary arguments)
  | some input =>
    let query := String.ofList (NumberText.trim input.toList)
    if query = "" then .catalog catalog else .found (searchDefinitions U catalog query) query

def search (num : Numerals ν) (summary : Json ν → String) (catalog : List (ToolDefinition ν))
    (call : ToolCall ν) : ToolResult :=
  let answer := searchAnswer U summary catalog call.arguments
  ⟨call.id, answer.content num, answer.isError⟩

/-! ### The director -/

inductive ContentBlock (ν : Type)
  | toolCall (call : ToolCall ν)
  | other

inductive ReactorInboundEvent (ν : Type)
  | inferenceDone (content : List (ContentBlock ν))
  | other

/-- What the director searches for; none where the access to the arguments throws. -/
def queryOf : Json ν → Option String
  | .null => none
  | arguments =>
    match arguments.member "query" with
    | some (.string query) => some query
    | _ => some ""

/-- The selection after the blocks of a turn. A throw leaves it as it is by then. -/
def surfaceFromContent : List (ContentBlock ν) → DeferredToolSelection ν → DeferredToolSelection ν
  | [], s => s
  | .other :: content, s => surfaceFromContent content s
  | .toolCall call :: content, s =>
    if call.name ≠ toolSearchName then surfaceFromContent content s
    else match queryOf call.arguments with
      | none => s
      | some query => surfaceFromContent content (s.surface U query)

def surfaceFromEvent : ReactorInboundEvent ν → DeferredToolSelection ν → DeferredToolSelection ν
  | .inferenceDone content, s => surfaceFromContent U content s
  | .other, s => s

/-- What the director publishes for the tool to search. -/
def DeferredToolSelection.deferredDefinitions (s : DeferredToolSelection ν) :
    List (ToolDefinition ν) := s.deferred

/-! ### The text of an answer -/

lemma infix_intercalate {separator text : String} {texts : List String} (h : text ∈ texts) :
    text.toList <:+: (separator.intercalate texts).toList := by
  induction texts with
  | nil => cases h
  | cons first texts ih =>
    by_cases hrest : texts = []
    · subst hrest
      obtain rfl := List.mem_singleton.mp h
      rw [String.intercalate_singleton]
    rw [String.intercalate_cons_of_ne_nil hrest, String.toList_append, String.toList_append]
    rcases List.mem_cons.mp h with rfl | hmem
    · exact ⟨[], separator.toList ++ (separator.intercalate texts).toList, by simp⟩
    · exact (ih hmem).trans (List.suffix_append _ _).isInfix

/-- Every tool that an answer names stands in its text. -/
lemma name_in_content {num : Numerals ν} {answer : SearchAnswer ν} {tool : ToolDefinition ν}
    (h : tool ∈ answer.named) : tool.name.toList <:+: (answer.content num).toList := by
  have hpos {definitions : List (ToolDefinition ν)} (h : tool ∈ definitions) :
      definitions.length ≠ 0 := Nat.ne_of_gt (List.length_pos_of_mem h)
  cases answer with
  | error summary => cases h
  | catalog definitions =>
    have h : tool ∈ definitions := h
    have hline : "- " ++ tool.name ++ ": " ++ firstLine tool.description ∈
        definitions.map fun definition =>
          "- " ++ definition.name ++ ": " ++ firstLine definition.description :=
      List.mem_map.mpr ⟨tool, h, rfl⟩
    change tool.name.toList <:+: (renderCatalogLines definitions).toList
    rw [renderCatalogLines, if_neg (hpos h)]
    refine .trans ?_ (infix_intercalate hline)
    rw [String.toList_append, String.toList_append, String.toList_append, List.append_assoc]
    exact List.infix_append _ _ _
  | found definitions query =>
    have h : tool ∈ definitions := h
    have hblock : "\n".intercalate ["name: " ++ tool.name, "description: " ++ tool.description,
        "input schema: " ++ String.ofList (Json.stringify num tool.inputSchema)] ∈
          definitions.map fun definition =>
            "\n".intercalate ["name: " ++ definition.name,
              "description: " ++ definition.description,
              "input schema: " ++ String.ofList (Json.stringify num definition.inputSchema)] :=
      List.mem_map.mpr ⟨tool, h, rfl⟩
    change tool.name.toList <:+: (renderMatches num definitions query).toList
    rw [renderMatches, if_neg (hpos h), String.toList_append]
    refine .trans ?_ ((infix_intercalate hblock).trans (List.prefix_append _ _).isInfix)
    refine .trans ?_ (infix_intercalate List.mem_cons_self)
    rw [String.toList_append]
    exact (List.suffix_append _ _).isInfix

/-! ### What is added -/

variable {U} {s : DeferredToolSelection ν} {query name : String} {arguments : Json ν}
  {summary : Json ν → String}

/-- A search adds the deferred tools that it surfaces and that were not surfaced before. -/
lemma exists_added (U : Unicode) (s : DeferredToolSelection ν) (query : String) :
    ∃ added, (s.surface U query).tools = s.tools ++ added ∧
    ∀ name, name ∈ added.map (·.name) ↔ name ∉ s.surfaced.elements ∧
      name ∈ s.deferred.map (·.name) ∧ name ∈ (s.surface U query).surfaced.elements := by
  have hprefix : s.surfaced.elements <+: (s.surface U query).surfaced.elements :=
    OrderedSet.prefix_insertAll
  obtain ⟨fresh, hfresh⟩ := hprefix
  have hnodup := (s.surface U query).surfaced.nodup
  rw [← hfresh, List.nodup_append] at hnodup
  refine ⟨fresh.filterMap s.byName.get, ?_, fun name => ?_⟩
  · rw [DeferredToolSelection.tools, DeferredToolSelection.byName_surface, ← hfresh,
      List.filterMap_append, ← List.append_assoc]
    rfl
  rw [← hfresh, List.mem_append]
  constructor
  · intro h
    obtain ⟨definition, hdefinition, rfl⟩ := List.mem_map.mp h
    obtain ⟨key, hkey, hget⟩ := List.mem_filterMap.mp hdefinition
    obtain ⟨rfl, hdeferred⟩ := DeferredToolSelection.name_of_byName hget
    exact ⟨fun hold => hnodup.2.2 _ hold _ hkey rfl, List.mem_map.mpr ⟨_, hdeferred, rfl⟩,
      .inr hkey⟩
  · rintro ⟨hnew, hdeferred, hold | hkey⟩
    · exact absurd hold hnew
    · obtain ⟨definition, hget⟩ :=
        Option.isSome_iff_exists.mp (DeferredToolSelection.isSome_byName.2 hdeferred)
      exact List.mem_map.mpr ⟨definition, List.mem_filterMap.mpr ⟨name, hkey, hget⟩,
        (DeferredToolSelection.name_of_byName hget).1⟩

/-- The list after a call against the list before it and the tool's own answer. -/
def Agrees (s after : DeferredToolSelection ν) (answer : SearchAnswer ν) : Prop :=
  ∃ added, after.tools = s.tools ++ added ∧
    (∀ definition ∈ added, ∃ tool ∈ answer.named,
      toolNamespace definition.name = toolNamespace tool.name) ∧
    (∀ tool ∈ answer.named, tool.name ∈ after.tools.map (·.name)) ∧
    (answer.isError → added = [])

/-- The tool trims the query before it searches, the director does not. -/
lemma searchAnswer_of_input {catalog : List (ToolDefinition ν)}
    (h : searchInput arguments = some query) :
    (searchAnswer U summary catalog arguments).named = searchDefinitions U catalog query ∧
      (searchAnswer U summary catalog arguments).isError = false := by
  rw [searchAnswer, h]
  dsimp only
  split
  · next hempty =>
    have htokens : tokenize U query = [] := by
      rw [← tokenize_trim, hempty, tokenize_empty]
    exact ⟨(searchDefinitions_of_no_tokens htokens).symm, rfl⟩
  · exact ⟨searchDefinitions_congr tokenize_trim, rfl⟩

lemma searchAnswer_of_error {catalog : List (ToolDefinition ν)} (h : searchInput arguments = none) :
    searchAnswer U summary catalog arguments = .error (summary arguments) := by
  rw [searchAnswer, h]

/-- The director reads what the tool reads, and the empty query where the tool reads none. -/
lemma queryOf_of_ne_null (h : arguments ≠ .null) :
    queryOf arguments = some ((searchInput arguments).getD "") := by
  have hread : queryOf arguments = match arguments.member "query" with
      | some (.string query) => some query
      | _ => some "" := by
    cases arguments
    case null => exact absurd rfl h
    all_goals rfl
  rw [hread, searchInput]
  split <;> rfl

lemma surfaceFromEvent_call (id : String) :
    surfaceFromEvent U (.inferenceDone [.toolCall ⟨id, toolSearchName, arguments⟩]) s =
      ((queryOf arguments).map (s.surface U)).getD s := by
  simp only [surfaceFromEvent, surfaceFromContent, ne_eq, not_true_eq_false, if_false]
  cases queryOf arguments <;> rfl

/-! ### Agreement -/

/-- A call that the tool takes is read alike by both. -/
lemma agrees_surface (h : searchInput arguments = some query) :
    Agrees s (s.surface U query) (searchAnswer U summary s.deferredDefinitions arguments) := by
  obtain ⟨hnamed, herror⟩ :
      (searchAnswer U summary s.deferredDefinitions arguments).named =
        searchDefinitions U s.deferred query ∧
      (searchAnswer U summary s.deferredDefinitions arguments).isError = false :=
    searchAnswer_of_input h
  obtain ⟨added, htools, hadded⟩ := exists_added U s query
  refine ⟨added, htools, fun definition hdefinition => ?_, fun tool htool => ?_, fun hcontra => ?_⟩
  · have hname := (hadded definition.name).mp (List.mem_map.mpr ⟨definition, hdefinition, rfl⟩)
    rcases DeferredToolSelection.mem_surface.1 hname.2.2 with
      hold | ⟨other, -, hother, tool, htool, hnamespace⟩
    · exact absurd hold hname.1
    · rw [hother] at hnamespace
      rw [hnamed]
      exact ⟨tool, htool, hnamespace.symm⟩
  · rw [hnamed] at htool
    have hdeferred : tool ∈ s.deferred := searchDefinitions_subset htool
    refine DeferredToolSelection.mem_tools_of_surfaced ?_ (List.mem_map.mpr ⟨tool, hdeferred, rfl⟩)
    exact DeferredToolSelection.mem_surface.2 (.inr ⟨tool, hdeferred, rfl, tool, htool, rfl⟩)
  · rw [herror] at hcontra
    cases hcontra

/-- What the tool refuses surfaces everything: that is nothing only when all is surfaced. -/
lemma agrees_error_iff (error : String) :
    Agrees s (s.surface U "") (.error error) ↔
      ∀ definition ∈ s.deferred, definition.name ∈ s.surfaced.elements := by
  obtain ⟨added, htools, hadded⟩ := exists_added U s ""
  constructor
  · rintro ⟨added', htools', -, -, herror⟩ definition hdefinition
    have hnone : added = [] :=
      (List.append_cancel_left (htools.symm.trans htools')).trans (herror rfl)
    by_contra hnew
    have hname : definition.name ∈ added.map (·.name) := by
      refine (hadded _).mpr ⟨hnew, List.mem_map.mpr ⟨_, hdefinition, rfl⟩, ?_⟩
      refine DeferredToolSelection.mem_surface.2 (.inr ⟨definition, hdefinition, rfl,
        definition, ?_, rfl⟩)
      rwa [searchDefinitions_of_no_tokens tokenize_empty]
    rw [hnone] at hname
    cases hname
  · intro hall
    have hnone : added = [] := by
      refine List.eq_nil_iff_forall_not_mem.mpr fun definition hdefinition => ?_
      obtain ⟨hnew, hdeferred, -⟩ :=
        (hadded definition.name).mp (List.mem_map.mpr ⟨definition, hdefinition, rfl⟩)
      obtain ⟨other, hother, hname⟩ := List.mem_map.mp hdeferred
      exact hnew (hname ▸ hall other hother)
    exact ⟨added, htools, by simp [hnone], by simp [SearchAnswer.named], fun _ => hnone⟩

/-- **The director and the tool agree on a call exactly when** the tool takes its arguments, or
they are `null` and the director throws, or there is nothing left to surface. -/
theorem surface_agrees_iff (U : Unicode) (summary : Json ν → String) (s : DeferredToolSelection ν)
    (id : String) (arguments : Json ν) :
    Agrees s (surfaceFromEvent U (.inferenceDone [.toolCall ⟨id, toolSearchName, arguments⟩]) s)
        (searchAnswer U summary s.deferredDefinitions arguments) ↔
      (searchInput arguments).isSome ∨ arguments = .null ∨
        ∀ definition ∈ s.deferred, definition.name ∈ s.surfaced.elements := by
  rw [surfaceFromEvent_call]
  by_cases hnull : arguments = .null
  · subst hnull
    rw [searchAnswer_of_error rfl]
    refine iff_of_true ⟨[], (List.append_nil _).symm, ?_, ?_, fun _ => rfl⟩ (.inr (.inl rfl))
    · simp
    · simp [SearchAnswer.named]
  rw [queryOf_of_ne_null hnull]
  cases hinput : searchInput arguments with
  | some query => exact iff_of_true (agrees_surface hinput) (.inl rfl)
  | none =>
    rw [searchAnswer_of_error hinput]
    simpa [hnull] using agrees_error_iff (U := U) (s := s) (summary arguments)

/-- A call without a query: the tool answers an error, and the director surfaces the tool that is
held back. -/
theorem refused_call_surfaces :
    ¬ Agrees (DeferredToolSelection.create ascii DeferredToolSelection.shelf ⟨["memory_*"]⟩)
      (surfaceFromEvent ascii (.inferenceDone [.toolCall ⟨"1", toolSearchName, .object []⟩])
        (DeferredToolSelection.create ascii DeferredToolSelection.shelf ⟨["memory_*"]⟩))
      (searchAnswer ascii (fun _ => "query must be a string (was missing)")
        (DeferredToolSelection.create ascii DeferredToolSelection.shelf
          ⟨["memory_*"]⟩).deferredDefinitions (.object [])) := by
  rintro ⟨added, htools, -, -, herror⟩
  rw [herror rfl, List.append_nil] at htools
  exact absurd (congrArg List.length htools) (by decide)

end Workbench.DeferredTools
