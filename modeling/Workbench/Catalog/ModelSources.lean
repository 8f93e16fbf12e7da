import Workbench.Catalog.Credentials
import Workbench.Settings.ResolutionOrder

/-!
The sources of inference that a launch is given, in the order in which it tries them.

For each model that is required, the offerings that the tenant sees are put in order and turned into
sources. An offering for which there is no credential to use is skipped.
-/

namespace Workbench.Catalog

open Workbench.Lib
open Workbench.Settings (textLt)

structure InferenceSource where
  id : String
  provider : String
  baseURL : String
  credentialId : String
  model : String
  capabilities : List String
  quirks : Option Jsonb
  deriving DecidableEq, Repr

inductive SkipReason
  | walletBacked
  | credentialUnresolved
  | credentialUnauthorized
  | providerMisconfigured
  deriving DecidableEq, Repr

structure SourceSkip where
  reason : SkipReason
  provider : String
  deriving DecidableEq, Repr

inductive CatalogSourceResolution
  | ok (sources : List InferenceSource) (materials : List CredentialMaterialEntry)
  | noRequirements
  | modelUnavailable (model : String) (skips : List SourceSkip)
  deriving DecidableEq, Repr

inductive OfferingSourceResolution
  | ok (sources : List InferenceSource)
  | offeringUnavailable (offeringId : String) (skip : Option SourceSkip)
  deriving DecidableEq, Repr

/-! ### The order of the offerings -/

def byPriority (a b : ResolvedOffering) : Ordering :=
  if a.offering.priority ≠ b.offering.priority then
    compare a.offering.priority b.offering.priority
  else if textLt a.offering.id b.offering.id then .lt
  else .gt

/-- The place of a name in an order; of a name that stands there twice, the last one. -/
def rankOf (order : List String) (name : String) : Option ℕ :=
  (order.zipIdx.reverse.find? (·.1 = name)).map Prod.snd

def applyPreference (candidates : List ResolvedOffering) :
    Option ProviderPreference → List ResolvedOffering
  | none => candidates
  | some preference =>
    let ranked := candidates.filterMap fun offering =>
      (rankOf preference.order offering.provider.name).map fun rank => (offering, rank)
    let rest := candidates.filter fun offering =>
      (rankOf preference.order offering.provider.name).isNone
    let named := (ranked.insertionSort fun a b => a.2 ≤ b.2).map Prod.fst
    match preference.mode with
    | .pin => named
    | .prefer => named ++ rest

/-- The offerings for a requirement, in the order in which they are tried. -/
def candidatesFor (visible : List ResolvedOffering) (requirement : ModelRequirement)
    (invoker : Option ProviderPreference) : List ResolvedOffering :=
  let candidates := (visible.filter (·.model.canonicalName = requirement.model)).insertionSort
    fun a b => byPriority b a ≠ .lt
  let able := match requirement.capabilities with
    | none | some [] => candidates
    | some required => candidates.filter fun o => required.all (· ∈ o.offering.capabilities)
  applyPreference (applyPreference able requirement.providers) invoker

/-! ### The sources -/

def capabilities : List String :=
  ["plain-text", "plain-text-streaming", "function-calling", "function-calling-multi-turn",
    "function-calling-multi-turn-streaming", "function-calling-with-thinking",
    "function-calling-with-thinking-streaming", "vision-input", "vision-input-streaming",
    "audio-input", "audio-input-streaming", "video-input", "video-input-streaming",
    "document-input", "document-input-streaming", "image-output", "image-output-streaming",
    "code-execution", "code-execution-streaming", "reasoning-content",
    "reasoning-content-streaming", "grounding", "grounding-streaming", "files-api-reference",
    "files-api-reference-streaming", "redacted-thinking", "redacted-thinking-streaming",
    "structured-output", "structured-output-streaming", "long-context", "prompt-caching"]

/-- The row, where its columns are what they may be. -/
def parseModelOfferingRow (row : ModelOffering) : Except Fault ModelOffering :=
  if row.capabilities.all (· ∈ capabilities) && row.quirks.all (·.isObject) then .ok row
  else .error (.invalidRow row.id)

/-- What an offering is turned into. -/
structure BuiltSource where
  source : InferenceSource
  material : CredentialMaterialEntry
  deriving DecidableEq, Repr

section

-- `decrypt secret aad`, where the cipher opens the secret
variable (decrypt : String → String → Option String) (db : Tables) (tenantId : String)

def buildSource (resolved : ResolvedOffering) : Except Fault (Except SourceSkip BuiltSource) := do
  let provider := resolved.provider
  let some credentialId := provider.credentialId
    | if provider.walletId.isSome then return .error ⟨.walletBacked, provider.name⟩
      return .error ⟨.providerMisconfigured, provider.name⟩
  let some credential ← resolveCredentialById db tenantId credentialId
    | return .error ⟨.credentialUnresolved, provider.name⟩
  if credential.principalId.isSome then
    return .error ⟨.credentialUnauthorized, provider.name⟩
  let secret ← openSecret decrypt credential
  let parsed ← parseModelOfferingRow resolved.offering
  return .ok
    { source := ⟨parsed.id, provider.plugin, provider.baseURL, credentialId,
        resolved.model.canonicalName, parsed.capabilities, parsed.quirks⟩
      material := ⟨credentialId, provider.plugin, provider.baseURL, secret⟩ }

/-- The sources of a chain of offerings, which stops at the first that gives none. -/
def sourcesOf (byId : OrderedMap String ResolvedOffering) :
    List String → List InferenceSource → Except Fault OfferingSourceResolution
  | [], sources => .ok (.ok sources)
  | offeringId :: offeringIds, sources => do
    let some offering := byId.get offeringId
      | return .offeringUnavailable offeringId none
    match ← buildSource decrypt db tenantId offering with
    | .error skip => return .offeringUnavailable offeringId (some skip)
    | .ok built => sourcesOf byId offeringIds (sources ++ [built.source])

def resolveSourcesByOfferingIds (offeringIds : List String) :
    Except Fault OfferingSourceResolution := do
  let visible ← listVisibleOfferings db tenantId
  sourcesOf decrypt db tenantId (Shadowing.mapOf (·.offering.id) id visible) offeringIds []

/-- The sources for each requirement in turn, which stops at the first that has none. -/
def resolveRequirements (visible : List ResolvedOffering)
    (invokerPreferences : OrderedMap String ProviderPreference) :
    List ModelRequirement → List InferenceSource → OrderedMap String CredentialMaterialEntry →
      Except Fault CatalogSourceResolution
  | [], sources, materials => .ok (.ok sources materials.values)
  | requirement :: requirements, sources, materials => do
    let candidates := candidatesFor visible requirement (invokerPreferences.get requirement.model)
    let results ← candidates.mapM (buildSource decrypt db tenantId)
    let built := results.filterMap Except.toOption
    if built = [] then
      return .modelUnavailable requirement.model (results.filterMap fun
        | .error skip => some skip
        | .ok _ => none)
    resolveRequirements visible invokerPreferences requirements
      (sources ++ built.map (·.source))
      (Shadowing.claims (·.credentialId) materials (built.map (·.material)))

def resolveModelSources (requirements : List ModelRequirement)
    (invokerPreferences : OrderedMap String ProviderPreference) :
    Except Fault CatalogSourceResolution := do
  if requirements = [] then return .noRequirements
  let visible ← listVisibleOfferings db tenantId
  resolveRequirements decrypt db tenantId visible invokerPreferences requirements [] .empty

/-- The first pair that stands twice. -/
def firstCollapse : List (String × String) → List (String × String) → Option (String × String)
  | [], _ => none
  | preference :: preferences, seen =>
    if preference ∈ seen then some preference else firstCollapse preferences (preference :: seen)

def resolveInferencePreferences (requirements : List ModelRequirement) :
    Except Fault (List (String × String)) := do
  match ← resolveModelSources decrypt db tenantId requirements .empty with
  | .noRequirements => throw (.unresolvedPreferences "no_requirements")
  | .modelUnavailable _ _ => throw (.unresolvedPreferences "model_unavailable")
  | .ok sources _ =>
    let preferences := sources.map fun source => (source.provider, source.model)
    match firstCollapse preferences [] with
    | some (provider, model) => throw (.collapsed provider model)
    | none => return preferences

/-- The requirements of a definition, which name no model twice. -/
def assertRequirements (definition : WorkflowDefinition) :
    Except Fault (List ModelRequirement) :=
  match definition.modelRequirements with
  | none => .ok []
  | some requirements =>
    if (requirements.map (·.model)).Nodup ∧ requirements.all fun requirement =>
        (requirement.capabilities.getD []).all (· ∈ capabilities) then .ok requirements
    else .error (.invalidRow definition.id)

/-- The sources of a running instance, from what is stored about it. -/
def resolveInstanceModelSources (definitionId : String)
    (modelPreferences : Option (List InvokerModelPreference)) :
    Except Fault CatalogSourceResolution := do
  let some definitionRow := db.workflowDefinition.find? fun row =>
      row.id = definitionId && row.tenantId = tenantId
    | return .noRequirements
  let requirements ← assertRequirements definitionRow
  resolveModelSources decrypt db tenantId requirements
    (Shadowing.mapOf (·.model) (·.providers) (modelPreferences.getD []))

end

end Workbench.Catalog
