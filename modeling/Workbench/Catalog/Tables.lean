import Mathlib.Data.Int.Notation
import Mathlib.Data.Nat.Notation

/-!
The tables that a launch reads: tenants, what they offer, and the credentials that pay for it.

A query finds rows in the order in which they stand in their table.
-/

namespace Workbench.Catalog

structure Tenant where
  id : String
  parentId : Option String
  deriving DecidableEq, Repr

structure Model where
  id : String
  tenantId : String
  canonicalName : String
  disabled : Bool
  deriving DecidableEq, Repr

structure ModelProvider where
  id : String
  tenantId : String
  name : String
  plugin : String
  baseURL : String
  credentialId : Option String
  walletId : Option String
  disabled : Bool
  deriving DecidableEq, Repr

/-- A json value in a column, as its text. -/
structure Jsonb where
  text : String
  isObject : Bool
  deriving DecidableEq, Repr

structure ModelOffering where
  id : String
  tenantId : String
  modelId : String
  providerId : String
  priority : ℤ
  capabilities : List String
  quirks : Option Jsonb
  disabled : Bool
  deriving DecidableEq, Repr

inductive CredentialStatus
  | active
  | expired
  | revoked
  | error
  deriving DecidableEq, Repr

structure Credential where
  id : String
  tenantId : String
  /-- none of them owns what the tenant owns -/
  principalId : Option String
  providerId : String
  name : String
  secret : String
  scopes : Option (List String)
  status : CredentialStatus
  deriving DecidableEq, Repr

structure Provider where
  id : String
  tenantId : String
  name : String
  plugin : String
  apiBaseUrl : Option String
  deriving DecidableEq, Repr

inductive PreferenceMode
  | pin
  | prefer
  deriving DecidableEq, Repr

structure ProviderPreference where
  mode : PreferenceMode
  order : List String
  deriving DecidableEq, Repr

structure ModelRequirement where
  model : String
  capabilities : Option (List String)
  providers : Option ProviderPreference
  deriving DecidableEq, Repr

structure InvokerModelPreference where
  model : String
  providers : ProviderPreference
  deriving DecidableEq, Repr

structure WorkflowDefinition where
  id : String
  tenantId : String
  modelRequirements : Option (List ModelRequirement)
  deriving DecidableEq, Repr

/-- Which consumer uses which credential, under a handle of its own. -/
structure CredentialBindingDescriptor where
  handle : String
  credentialId : String
  consumer : String
  deriving DecidableEq, Repr

structure CredentialRefs where
  credentialIds : List String
  bindings : List CredentialBindingDescriptor
  deriving DecidableEq, Repr

structure WorkflowRun where
  id : String
  tenantId : String
  status : String
  anchorRunId : Option String
  address : Option String
  definitionId : Option String
  modelPreferences : Option (List InvokerModelPreference)
  credentialRefs : Option CredentialRefs
  deriving DecidableEq, Repr

structure Tables where
  tenant : List Tenant
  model : List Model
  modelProvider : List ModelProvider
  modelOffering : List ModelOffering
  credential : List Credential
  provider : List Provider
  workflowDefinition : List WorkflowDefinition
  workflowRun : List WorkflowRun
  deriving DecidableEq, Repr

/-- No two rows of a table have one id, no two runs one address, and no tenant is below one without
a name. -/
structure Tables.WellKeyed (db : Tables) : Prop where
  tenant : (db.tenant.map (·.id)).Nodup
  parents : ∀ row ∈ db.tenant, row.parentId ≠ some ""
  modelOffering : (db.modelOffering.map (·.id)).Nodup
  offeringIds : ∀ row ∈ db.modelOffering, row.id ≠ ""
  credential : (db.credential.map (·.id)).Nodup
  provider : (db.provider.map (·.id)).Nodup
  addresses : (db.workflowRun.filterMap (·.address)).Nodup

/-- What is thrown. -/
inductive Fault
  | cycle (tenantId : String)
  | unauthorized (credentialId tenantId : String)
  | missingProvider (credentialId providerId : String)
  | missingOrigin (providerName credentialId : String)
  | ambiguous (count : ℕ) (providerName source tenantId : String)
  | deployFailed (message : String)
  | unresolvedPreferences (reason : String)
  | collapsed (provider model : String)
  /-- a row that the validators of the columns refuse -/
  | invalidRow (id : String)
  /-- a secret that the cipher does not open -/
  | unopened (credentialId : String)
  deriving DecidableEq, Repr

/-- The message of a fault that is thrown here. -/
def Fault.message : Fault → Option String
  | cycle tenantId => some s!"Tenant hierarchy contains a cycle at tenant {tenantId}"
  | unauthorized credentialId tenantId =>
    some s!"credential {credentialId} is not a tenant-owned credential usable by tenant {tenantId}"
  | missingProvider credentialId providerId =>
    some s!"credential {credentialId} references provider {providerId}, which does not exist"
  | missingOrigin providerName credentialId =>
    some (s!"provider {providerName} backing credential {credentialId} has no API base URL; " ++
      "cannot pin an origin for its material")
  | ambiguous count providerName source tenantId =>
    some (s!"Ambiguous credential match: {count} credentials match " ++
      s!"provider={providerName} source={source} " ++
      s!"in tenant {tenantId}. Specify a name to disambiguate.")
  | deployFailed message =>
    some s!"deployCodeSourcedWorkflow: credential binding resolution failed: {message}"
  | unresolvedPreferences reason =>
    some s!"cannot resolve inference preferences for the folded definition: {reason}"
  | collapsed provider model =>
    some ("cannot resolve inference preferences for the folded definition: " ++
      "the model resolution is not injective on (provider, model) -- " ++
      s!"two offerings collapse to ({provider}, {model}); " ++
      "a folded agent requires a distinguishable inference preference per source")
  | invalidRow _ | unopened _ => none

end Workbench.Catalog
