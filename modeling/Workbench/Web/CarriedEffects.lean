import Workbench.Web.AgentSource

/-!
What the carried effects of a redeploy come to in the new run.

A redeploy declares the effects that it carries as grant requirements. The hub stages the rows of
the new run from the floor of its tools and from the requirements, one row each, side by side, and
among the rows of a tool the strongest effect decides. A carried denial is stronger than the floor,
a carried permission is not.
-/

namespace Workbench.Web.CarriedEffects

open Workbench.Web
open Workbench.Worker (ToolEffect CarriedEffect GrantRequirement toolEffectRequirement)

/-! ### The rows of the new run -/

def grantEffectOf (text : String) : Option GrantEffect :=
  if text = "allow" then some .allow
  else if text = "ask" then some .ask
  else if text = "deny" then some .deny
  else none

def insufficientGrants (requirement : GrantRequirement) : String :=
  "Creator lacks authority to delegate " ++ requirement.resource ++ "/" ++ requirement.action

/-- The row of a requirement, where the creator may delegate it. -/
def makeGrantRow (authorized : GrantRequirement → Bool) (targetPrincipalId : Id)
    (requirement : GrantRequirement) : Except String Grant :=
  if authorized requirement then
    match grantEffectOf requirement.effect with
    | none => .error "effect must be allow, ask or deny"
    | some effect => .ok ⟨targetPrincipalId, requirement.resource, requirement.action, effect⟩
  else .error (insufficientGrants requirement)

def resolveGrantMaterialization (authorized : GrantRequirement → Bool) (targetPrincipalId : Id)
    (grantRequirements : List GrantRequirement) : Except String (List Grant) :=
  grantRequirements.mapM (makeGrantRow authorized targetPrincipalId)

/-- The floor of a tool that has to be approved. -/
def floorGrant (principalId : Id) (resource : String) : Grant :=
  ⟨principalId, resource, "invoke", .ask⟩

/-- The rows of a new run: those of the floor, and those of the requirements beside them. -/
def stageRunGrants (authorized : GrantRequirement → Bool) (runPrincipalId : Id)
    (floor : List String) (grantRequirements : List GrantRequirement) :
    Except String (List Grant) := do
  let materialized ← resolveGrantMaterialization authorized runPrincipalId grantRequirements
  pure (floor.map (floorGrant runPrincipalId) ++ materialized)

/-- The new run of a redeploy that carries the effects of the old one. -/
def redeployedRun (authorized : GrantRequirement → Bool) (runPrincipalId : Id)
    (floor : List String) (toolGrants : List Grant) : Except String (List Grant) :=
  stageRunGrants authorized runPrincipalId floor
    ((toolEffectsToCarry toolGrants).map toolEffectRequirement)

/-! ### The effect of a tool -/

/-- The effect of the row that a tool has in the list. -/
def effectOf (tools : List Grant) (resource : String) : Option GrantEffect :=
  ((effectiveToolGrants tools).find? (·.resource = resource)).map (·.effect)

/-- The list has the row that the fold holds for a tool. -/
lemma find?_effectiveToolGrants (tools : List Grant) (resource : String) :
    (effectiveToolGrants tools).find? (·.resource = resource) =
      (tools.foldl holdGrant Lib.OrderedMap.empty).get resource := by
  cases hfind : (effectiveToolGrants tools).find? (·.resource = resource) with
  | some grant =>
    have hmem := mem_effectiveToolGrants.1 (List.mem_of_find?_eq_some hfind)
    have hres : grant.resource = resource := by simpa using List.find?_some hfind
    rw [← hres, hmem]
  | none =>
    cases hget : (tools.foldl holdGrant Lib.OrderedMap.empty).get resource with
    | none => rfl
    | some winner =>
      obtain ⟨-, rfl, -⟩ := (wins_effective tools).held _ _ hget
      have hmem := mem_effectiveToolGrants.2 hget
      exact absurd (List.find?_eq_none.mp hfind winner hmem) (by simp)

lemma effectOf_of_mem_effective {tools : List Grant} {grant : Grant}
    (h : grant ∈ effectiveToolGrants tools) :
    effectOf tools grant.resource = some grant.effect := by
  rw [effectOf, find?_effectiveToolGrants, mem_effectiveToolGrants.1 h]
  rfl

lemma mem_effective_of_effectOf {tools : List Grant} {resource : String} {effect : GrantEffect}
    (h : effectOf tools resource = some effect) :
    ∃ grant ∈ effectiveToolGrants tools, grant.resource = resource ∧ grant.effect = effect := by
  obtain ⟨winner, hwinner, rfl⟩ := Option.map_eq_some_iff.mp h
  exact ⟨winner, List.mem_of_find?_eq_some hwinner, by simpa using List.find?_some hwinner, rfl⟩

lemma effectRank_injective : Function.Injective effectRank := by
  intro a b h
  cases a <;> cases b <;> first | rfl | exact absurd h (by decide)

/-- The effect of a tool is the strongest of its rows. -/
lemma effectOf_eq_some {tools : List Grant} {resource : String} {effect : GrantEffect} :
    effectOf tools resource = some effect ↔
      (∃ grant ∈ tools, grant.resource = resource ∧ grant.effect = effect) ∧
        ∀ grant ∈ tools, grant.resource = resource →
          effectRank grant.effect ≤ effectRank effect := by
  have hwins := wins_effective tools
  constructor
  · intro h
    rw [effectOf, find?_effectiveToolGrants] at h
    obtain ⟨winner, hwinner, rfl⟩ := Option.map_eq_some_iff.mp h
    obtain ⟨hmem, hres, hmax⟩ := hwins.held _ _ hwinner
    exact ⟨⟨winner, hmem, hres, rfl⟩, hmax⟩
  · rintro ⟨⟨grant, hgrant, rfl, rfl⟩, hmax⟩
    obtain ⟨winner, hwinner⟩ := hwins.all grant hgrant
    obtain ⟨hmem, hres, hbeats⟩ := hwins.held _ _ hwinner
    have hsame : winner.effect = grant.effect :=
      effectRank_injective (le_antisymm (hmax winner hmem hres) (hbeats grant hgrant rfl))
    rw [effectOf, find?_effectiveToolGrants, hwinner, Option.map_some, hsame]

lemma effectOf_eq_none {tools : List Grant} {resource : String} :
    effectOf tools resource = none ↔ ∀ grant ∈ tools, grant.resource ≠ resource := by
  have hwins := wins_effective tools
  rw [effectOf, find?_effectiveToolGrants, Option.map_eq_none_iff]
  constructor
  · rintro hnone grant hgrant rfl
    obtain ⟨winner, hwinner⟩ := hwins.all grant hgrant
    rw [hnone] at hwinner
    cases hwinner
  · intro h
    rw [Option.eq_none_iff_forall_ne_some]
    intro winner hwinner
    obtain ⟨hmem, hres, -⟩ := hwins.held _ _ hwinner
    exact h winner hmem hres

/-- A tool is carried with an effect other than `ask`, the one it has. -/
lemma mem_toolEffectsToCarry {tools : List Grant} {tool : ToolEffect} :
    tool ∈ toolEffectsToCarry tools ↔
      effectOf tools tool.resource = grantEffectOf tool.effect.text := by
  obtain ⟨resource, effect⟩ := tool
  rw [toolEffectsToCarry, List.mem_flatMap]
  constructor
  · rintro ⟨grant, hgrant, hcarried⟩
    have heffect := effectOf_of_mem_effective hgrant
    cases h : grant.effect <;> rw [h] at heffect <;> simp [carried, h] at hcarried
    · obtain ⟨rfl, rfl⟩ := hcarried
      exact heffect
    · obtain ⟨rfl, rfl⟩ := hcarried
      exact heffect
  · intro h
    cases effect with
    | allow =>
      obtain ⟨grant, hgrant, rfl, heffect⟩ := mem_effective_of_effectOf h
      exact ⟨grant, hgrant, by simp [carried, heffect]⟩
    | deny =>
      obtain ⟨grant, hgrant, rfl, heffect⟩ := mem_effective_of_effectOf h
      exact ⟨grant, hgrant, by simp [carried, heffect]⟩

/-! ### The rows beside the floor -/

section

variable {authorized : GrantRequirement → Bool} {principalId : Id} {floor : List String}
  {toolGrants rows : List Grant}

/-- The row that a carried effect is declared for. -/
def carriedRow (principalId : Id) (tool : ToolEffect) : Grant :=
  ⟨principalId, tool.resource, "invoke",
    match tool.effect with
    | .allow => .allow
    | .deny => .deny⟩

lemma grantEffectOf_text (tool : ToolEffect) :
    grantEffectOf tool.effect.text = some (carriedRow principalId tool).effect := by
  obtain ⟨resource, effect⟩ := tool
  cases effect <;> rfl

lemma makeGrantRow_eq_ok {tool : ToolEffect} {row : Grant}
    (h : makeGrantRow authorized principalId (toolEffectRequirement tool) = .ok row) :
    row = carriedRow principalId tool := by
  rw [makeGrantRow] at h
  split at h
  · obtain ⟨resource, effect⟩ := tool
    cases effect <;> exact (Except.ok.inj h).symm
  · cases h

lemma resolveGrantMaterialization_eq_ok {tools : List ToolEffect}
    (h : resolveGrantMaterialization authorized principalId (tools.map toolEffectRequirement) =
      .ok rows) : rows = tools.map (carriedRow principalId) := by
  induction tools generalizing rows with
  | nil => exact (Except.ok.inj h).symm
  | cons tool tools ih =>
    rw [resolveGrantMaterialization, List.map_cons, List.mapM_cons] at h
    cases hrow : makeGrantRow authorized principalId (toolEffectRequirement tool) with
    | error e =>
      rw [hrow] at h
      cases h
    | ok row =>
      rw [hrow] at h
      cases hrest : resolveGrantMaterialization authorized principalId
          (tools.map toolEffectRequirement) with
      | error e =>
        rw [resolveGrantMaterialization] at hrest
        rw [hrest] at h
        cases h
      | ok rest =>
        have hmap := ih hrest
        rw [resolveGrantMaterialization] at hrest
        rw [hrest] at h
        obtain rfl := Except.ok.inj h
        rw [makeGrantRow_eq_ok hrow, hmap, List.map_cons]

/-- The rows of a run that is redeployed: an ask for each tool, and what is carried. -/
lemma redeployedRun_eq_ok (h : redeployedRun authorized principalId floor toolGrants = .ok rows) :
    rows = floor.map (floorGrant principalId) ++
      (toolEffectsToCarry toolGrants).map (carriedRow principalId) := by
  rw [redeployedRun, stageRunGrants] at h
  cases hrest : resolveGrantMaterialization authorized principalId
      ((toolEffectsToCarry toolGrants).map toolEffectRequirement) with
  | error e =>
    rw [hrest] at h
    cases h
  | ok rest =>
    rw [hrest] at h
    obtain rfl := Except.ok.inj h
    rw [resolveGrantMaterialization_eq_ok hrest]

/-- The new run gives every tool the effect that it had. -/
def KeepsEffects (toolGrants rows : List Grant) : Prop :=
  ∀ resource, effectOf rows resource = effectOf toolGrants resource

/-- Beside its floor a tool keeps what it had, unless that was a permission. -/
lemma effectOf_redeployedRun (h : redeployedRun authorized principalId floor toolGrants = .ok rows)
    {read : List Grant} (hread : read.Perm rows) {resource : String} (hfloor : resource ∈ floor) :
    effectOf read resource =
      if effectOf toolGrants resource = some .deny then some .deny else some .ask := by
  have hmem : ∀ grant, grant ∈ read ↔ grant ∈ floor.map (floorGrant principalId) ++
      (toolEffectsToCarry toolGrants).map (carriedRow principalId) := by
    intro grant
    rw [hread.mem_iff, redeployedRun_eq_ok h]
  split_ifs with hdeny
  · refine effectOf_eq_some.2 ⟨⟨carriedRow principalId ⟨resource, .deny⟩, ?_, rfl, rfl⟩, ?_⟩
    · have hcarried : (⟨resource, .deny⟩ : ToolEffect) ∈ toolEffectsToCarry toolGrants :=
        mem_toolEffectsToCarry.2 hdeny
      exact (hmem _).mpr (List.mem_append_right _ (List.mem_map_of_mem hcarried))
    · intro grant _ _
      cases grant.effect <;> decide
  · refine effectOf_eq_some.2 ⟨⟨floorGrant principalId resource, ?_, rfl, rfl⟩, ?_⟩
    · exact (hmem _).mpr (List.mem_append_left _ (List.mem_map_of_mem hfloor))
    · intro grant hgrant hres
      rcases List.mem_append.mp ((hmem grant).mp hgrant) with hasks | hcarried
      · obtain ⟨tool, -, rfl⟩ := List.mem_map.mp hasks
        exact le_refl _
      · obtain ⟨⟨tool, effect⟩, htool, rfl⟩ := List.mem_map.mp hcarried
        obtain rfl : tool = resource := hres
        cases effect with
        | allow => exact Nat.zero_le _
        | deny => exact absurd (mem_toolEffectsToCarry.1 htool) hdeny

/-- Each tool with a row that allows it has another one that asks or denies. -/
def NothingAllowed (toolGrants : List Grant) : Prop :=
  ∀ grant ∈ toolGrants, grant.effect = .allow →
    ∃ other ∈ toolGrants, other.resource = grant.resource ∧ other.effect ≠ .allow

/-- No tool is allowed by the fold then. -/
lemma nothingAllowed_iff (toolGrants : List Grant) :
    NothingAllowed toolGrants ↔ ∀ resource, effectOf toolGrants resource ≠ some .allow := by
  constructor
  · intro h resource hallow
    obtain ⟨⟨grant, hgrant, rfl, heffect⟩, hmax⟩ := effectOf_eq_some.1 hallow
    obtain ⟨other, hother, hres, hne⟩ := h grant hgrant heffect
    have hle : effectRank other.effect = effectRank .allow :=
      Nat.le_zero.mp (hmax other hother hres)
    exact hne (effectRank_injective hle)
  · intro h grant hgrant hallow
    by_contra hnone
    refine h grant.resource (effectOf_eq_some.2 ⟨⟨grant, hgrant, rfl, hallow⟩, ?_⟩)
    intro other hother hres
    have heffect : other.effect = .allow := by
      by_contra hne
      exact hnone ⟨other, hother, hres, hne⟩
    rw [heffect]

/-- **A redeploy keeps the effects** of the tools exactly when it has no permission to carry: the
rows of the new run, in whatever order they are read, give each tool the effect that the old rows
gave it if and only if those allowed none. -/
theorem keepsEffects_iff
    (hfloor : ∀ resource, resource ∈ floor ↔ ∃ grant ∈ toolGrants, grant.resource = resource)
    (h : redeployedRun authorized principalId floor toolGrants = .ok rows)
    {read : List Grant} (hread : read.Perm rows) :
    KeepsEffects toolGrants read ↔ NothingAllowed toolGrants := by
  rw [nothingAllowed_iff]
  constructor
  · intro hkeeps resource hallow
    obtain ⟨⟨grant, hgrant, hres, -⟩, -⟩ := effectOf_eq_some.1 hallow
    have hrun := effectOf_redeployedRun h hread ((hfloor resource).mpr ⟨grant, hgrant, hres⟩)
    rw [hkeeps resource, hallow] at hrun
    exact absurd hrun (by decide)
  · intro hnone resource
    by_cases hres : resource ∈ floor
    · rw [effectOf_redeployedRun h hread hres]
      obtain ⟨grant, hgrant, hgrantres⟩ := (hfloor resource).mp hres
      cases heffect : effectOf toolGrants resource with
      | none => exact absurd hgrantres (effectOf_eq_none.1 heffect grant hgrant)
      | some effect =>
        cases effect with
        | allow => exact absurd heffect (hnone resource)
        | ask => rfl
        | deny => rfl
    · have hold : effectOf toolGrants resource = none := effectOf_eq_none.2 fun grant hgrant hg =>
        hres ((hfloor resource).mpr ⟨grant, hgrant, hg⟩)
      rw [hold, effectOf_eq_none]
      intro grant hgrant hg
      rw [hread.mem_iff, redeployedRun_eq_ok h] at hgrant
      rcases List.mem_append.mp hgrant with hasks | hcarried
      · obtain ⟨tool, htool, rfl⟩ := List.mem_map.mp hasks
        exact hres (by rw [← hg]; exact htool)
      · obtain ⟨tool, htool, rfl⟩ := List.mem_map.mp hcarried
        have heffect := mem_toolEffectsToCarry.1 htool
        rw [show tool.resource = resource from hg, hold,
          @grantEffectOf_text principalId tool] at heffect
        cases heffect

end

/-- A tool that is denied, and one that asks. -/
theorem keepsEffects_iff_denied :
    KeepsEffects [⟨1, "tool:mail", "invoke", .deny⟩, ⟨1, "tool:mail", "invoke", .allow⟩]
      [⟨2, "tool:mail", "invoke", .deny⟩, ⟨2, "tool:mail", "invoke", .ask⟩] ↔
        NothingAllowed [⟨1, "tool:mail", "invoke", .deny⟩, ⟨1, "tool:mail", "invoke", .allow⟩] :=
  @keepsEffects_iff (fun _ => true) 2 ["tool:mail"] _ _ (by simp [eq_comm]) rfl _
    (List.Perm.swap _ _ _)

/-- A tool that the person has allowed asks again. -/
theorem allowed_asks_again :
    ∃ rows, redeployedRun (fun _ => true) 2 ["tool:web_search"]
        [⟨1, "tool:web_search", "invoke", .allow⟩] = .ok rows ∧
      effectOf rows "tool:web_search" = some .ask ∧
      ¬ KeepsEffects [⟨1, "tool:web_search", "invoke", .allow⟩] rows :=
  ⟨[⟨2, "tool:web_search", "invoke", .ask⟩, ⟨2, "tool:web_search", "invoke", .allow⟩],
    by decide, by decide, fun h => absurd (h "tool:web_search") (by decide)⟩

end Workbench.Web.CarriedEffects
