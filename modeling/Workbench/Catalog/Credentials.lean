import Workbench.Catalog.VisibleOfferings
import Workbench.Lib.Fallible
import Workbench.Lib.Json

/-!
The credentials that a tenant may use, and the material that is delivered for them.

A tenant may use what it owns and what the tenants above it own. What belongs to a principal is
not usable through the hierarchy.
-/

namespace Workbench.Catalog

open Workbench.Lib Workbench.Lib.Fallible

structure CredentialMaterialEntry where
  credentialId : String
  providerKey : String
  origin : String
  secret : String
  deriving DecidableEq, Repr

/-- There are no numbers in what is written here. -/
def noNumerals : Numerals Unit := ⟨fun _ => ['0'], fun _ => ()⟩

/-- What the cipher opens a secret with: its row and its column. -/
def credentialAad (id column : String) : String :=
  String.ofList (Json.stringify noNumerals
    (.array [.string "credential-secret", .string id, .string column]))

def resolveCredentialById (db : Tables) (tenantId credentialId : String) :
    Except Fault (Option Credential) :=
  match db.credential.find? (·.id = credentialId) with
  | none => .ok none
  | some row => do
    let chain ← getAncestorChain db tenantId
    return if row.tenantId ∈ chain then some row else none

def resolveTenantOwnedCredentialById (db : Tables) (tenantId credentialId : String) :
    Except Fault (Option Credential) := do
  return (← resolveCredentialById db tenantId credentialId).filter (·.principalId.isNone)

section

-- `decrypt secret aad`, where the cipher opens the secret
variable (decrypt : String → String → Option String)

/-- The secret of a credential, in the clear. -/
def openSecret (row : Credential) : Except Fault String :=
  match decrypt row.secret (credentialAad row.id "secret") with
  | some secret => .ok secret
  | none => .error (.unopened row.id)

/-- The material of a credential, as its own provider describes it. -/
def materialOf (db : Tables) (row : Credential) : Except Fault CredentialMaterialEntry := do
  let some providerRow := db.provider.find? (·.id = row.providerId)
    | throw (.missingProvider row.id row.providerId)
  let origin := providerRow.apiBaseUrl.getD ""
  if origin = "" then throw (.missingOrigin providerRow.name row.id)
  return ⟨row.id, providerRow.plugin, origin, ← openSecret decrypt row⟩

/-- The map with the material of one more id, if there is any. -/
def gatherOne (current : String → Except Fault (Option CredentialMaterialEntry))
    (materials : OrderedMap String CredentialMaterialEntry) (credentialId : String) :
    Except Fault (OrderedMap String CredentialMaterialEntry) := do
  if materials.has credentialId then return materials
  match ← current credentialId with
  | none => return materials
  | some material => return materials.set credentialId material

/-- The materials of the ids for which there are any, each once. -/
def gather (current : String → Except Fault (Option CredentialMaterialEntry))
    (credentialIds : List String) : Except Fault (List CredentialMaterialEntry) := do
  let materials ← credentialIds.foldlM (gatherOne current) .empty
  return materials.values

/-- The material of a credential that the tenant may use. -/
def inferenceMaterial (db : Tables) (tenantId credentialId : String) :
    Except Fault (Option CredentialMaterialEntry) := do
  match ← resolveTenantOwnedCredentialById db tenantId credentialId with
  | none => throw (.unauthorized credentialId tenantId)
  | some row => return some (← materialOf decrypt db row)

def resolveInferenceMaterials (db : Tables) (tenantId : String) (credentialIds : List String) :
    Except Fault (List CredentialMaterialEntry) :=
  gather (inferenceMaterial decrypt db tenantId) credentialIds

/-- The material of a credential, unless it was deleted or revoked. -/
def currentMaterial (db : Tables) (credentialId : String) :
    Except Fault (Option CredentialMaterialEntry) :=
  match db.credential.find? (·.id = credentialId) with
  | none => .ok none
  | some row =>
    if row.status = .revoked then .ok none
    else do return some (← materialOf decrypt db row)

def reresolveCurrentMaterials (db : Tables) (credentialIds : List String) :
    Except Fault (List CredentialMaterialEntry) :=
  gather (currentMaterial decrypt db) credentialIds

end

/-! ### Ownership -/

variable {db : Tables} {tenantId credentialId : String} {row : Credential}

lemma resolveCredentialById_eq_ok :
    resolveCredentialById db tenantId credentialId = .ok (some row) ↔
      db.credential.find? (·.id = credentialId) = some row ∧
        ∃ chain, getAncestorChain db tenantId = .ok chain ∧ row.tenantId ∈ chain := by
  rw [resolveCredentialById]
  split
  · next hfind => simp [hfind]
  · next found hfind =>
    rw [hfind, bind_eq_ok, Option.some.injEq]
    constructor
    · rintro ⟨chain, hchain, hmem⟩
      split_ifs at hmem with hin
      · obtain rfl := Option.some.inj (pure_eq_ok.1 hmem)
        exact ⟨rfl, chain, hchain, hin⟩
      · cases pure_eq_ok.1 hmem
    · rintro ⟨rfl, chain, hchain, hmem⟩
      exact ⟨chain, hchain, by rw [if_pos hmem]; rfl⟩

/-- A tenant may use a credential of its own or of a tenant above it, which no principal owns. -/
lemma resolveTenantOwnedCredentialById_eq_ok :
    resolveTenantOwnedCredentialById db tenantId credentialId = .ok (some row) ↔
      resolveCredentialById db tenantId credentialId = .ok (some row) ∧ row.principalId = none := by
  rw [resolveTenantOwnedCredentialById, bind_eq_ok]
  constructor
  · rintro ⟨found, hfound, hrow⟩
    obtain ⟨hsome, howner⟩ := Option.filter_eq_some_iff.mp (pure_eq_ok.1 hrow)
    rw [hsome] at hfound
    exact ⟨hfound, by simpa using howner⟩
  · rintro ⟨hfound, howner⟩
    refine ⟨some row, hfound, pure_eq_ok.2 (Option.filter_eq_some_iff.mpr ⟨rfl, ?_⟩)⟩
    simp [howner]

section

variable {decrypt : String → String → Option String} {material : CredentialMaterialEntry}

lemma credentialId_materialOf (h : materialOf decrypt db row = .ok material) :
    material.credentialId = row.id := by
  unfold materialOf at h
  cases hprovider : db.provider.find? (·.id = row.providerId) with
  | none =>
    rw [hprovider] at h
    cases h
  | some providerRow =>
    rw [hprovider] at h
    dsimp only at h
    split_ifs at h
    · cases h
    · obtain ⟨secret, -, h⟩ := bind_eq_ok.1 h
      rw [← pure_eq_ok.1 h]

lemma credentialId_currentMaterial
    (h : currentMaterial decrypt db credentialId = .ok (some material)) :
    material.credentialId = credentialId := by
  unfold currentMaterial at h
  cases hfind : db.credential.find? (·.id = credentialId) with
  | none =>
    rw [hfind] at h
    cases h
  | some row =>
    rw [hfind] at h
    dsimp only at h
    split_ifs at h
    · cases h
    · obtain ⟨material', hmaterial, h⟩ := bind_eq_ok.1 h
      obtain rfl := Option.some.inj (pure_eq_ok.1 h)
      rw [credentialId_materialOf hmaterial]
      simpa using List.find?_some hfind

end

/-! ### Gathering -/

section

variable {current : String → Except Fault (Option CredentialMaterialEntry)}
  {m m' : OrderedMap String CredentialMaterialEntry}
  {credentialIds : List String} {materials : List CredentialMaterialEntry}

lemma get_of_gatherOne (h : gatherOne current m credentialId = .ok m') :
    (m.has credentialId ∨ ∃ found, current credentialId = .ok found) ∧
      ∀ k v, m'.get k = some v ↔ m.get k = some v ∨
        m.get k = none ∧ k = credentialId ∧ current k = .ok (some v) := by
  rw [gatherOne] at h
  split_ifs at h with hhas
  · obtain rfl := pure_eq_ok.1 h
    refine ⟨.inl hhas, fun k v => ⟨.inl, ?_⟩⟩
    rintro (hget | ⟨hnone, rfl, -⟩)
    · exact hget
    · simp [OrderedMap.has, hnone] at hhas
  · rw [bind_eq_ok] at h
    obtain ⟨found, hfound, h⟩ := h
    have hnone : m.get credentialId = none := by simpa [OrderedMap.has] using hhas
    refine ⟨.inr ⟨found, hfound⟩, fun k v => ?_⟩
    cases found with
    | none =>
      obtain rfl := pure_eq_ok.1 h
      refine ⟨.inl, ?_⟩
      rintro (hget | ⟨-, rfl, hcurrent⟩)
      · exact hget
      · rw [hfound] at hcurrent
        cases hcurrent
    | some material =>
      obtain rfl := pure_eq_ok.1 h
      rw [OrderedMap.get_set]
      split_ifs with hk
      · subst hk
        simp [hnone, hfound]
      · simp [hk]

lemma get_of_gather (h : credentialIds.foldlM (gatherOne current) m = .ok m') :
    (∀ credentialId ∈ credentialIds, m.has credentialId ∨
      ∃ found, current credentialId = .ok found) ∧
      ∀ k v, m'.get k = some v ↔ m.get k = some v ∨
        m.get k = none ∧ k ∈ credentialIds ∧ current k = .ok (some v) := by
  induction credentialIds generalizing m with
  | nil =>
    obtain rfl := pure_eq_ok.1 h
    simp
  | cons credentialId credentialIds ih =>
    obtain ⟨u, hu, hrest⟩ := foldlM_cons_eq_ok.1 h
    obtain ⟨hall, hget⟩ := ih hrest
    obtain ⟨hfirst, hone⟩ := get_of_gatherOne hu
    constructor
    · intro id hid
      rcases List.mem_cons.mp hid with rfl | hid
      · exact hfirst
      rcases hall id hid with hhas | hcurrent
      · obtain ⟨v, hv⟩ := Option.isSome_iff_exists.mp hhas
        rcases (hone id v).mp hv with hget | ⟨-, -, hcurrent⟩
        · exact .inl (Option.isSome_iff_exists.mpr ⟨v, hget⟩)
        · exact .inr ⟨some v, hcurrent⟩
      · exact .inr hcurrent
    · intro k v
      rw [hget, hone, List.mem_cons]
      constructor
      · rintro ((hm | ⟨hnone, rfl, hcurrent⟩) | ⟨hnone, hmem, hcurrent⟩)
        · exact .inl hm
        · exact .inr ⟨hnone, .inl rfl, hcurrent⟩
        · refine .inr ⟨?_, .inr hmem, hcurrent⟩
          cases hmk : m.get k with
          | none => rfl
          | some w =>
            rw [(hone k w).mpr (.inl hmk)] at hnone
            cases hnone
      · rintro (hm | ⟨hnone, rfl | hmem, hcurrent⟩)
        · exact .inl (.inl hm)
        · exact .inl (.inr ⟨hnone, rfl, hcurrent⟩)
        · by_cases hk : k = credentialId
          · exact .inl (.inr ⟨hnone, hk, hcurrent⟩)
          · refine .inr ⟨Option.eq_none_iff_forall_ne_some.mpr fun w hw => ?_, hmem, hcurrent⟩
            rcases (hone k w).mp hw with hw | ⟨-, hw, -⟩
            · rw [hnone] at hw
              cases hw
            · exact hk hw

/-- **What is gathered** are the materials that there are for the ids, each once. -/
theorem gather_eq_ok (hnamed : ∀ credentialId material,
      current credentialId = .ok (some material) → material.credentialId = credentialId)
    (h : gather current credentialIds = .ok materials) :
    (∀ credentialId ∈ credentialIds, ∃ found, current credentialId = .ok found) ∧
      (∀ material, material ∈ materials ↔
        ∃ credentialId ∈ credentialIds, current credentialId = .ok (some material)) ∧
      (materials.map (·.credentialId)).Nodup := by
  rw [gather, bind_eq_ok] at h
  obtain ⟨m, hm, hvalues⟩ := h
  obtain rfl := pure_eq_ok.1 hvalues
  obtain ⟨hall, hget⟩ := get_of_gather hm
  have hkeyed : Shadowing.Keyed (·.credentialId) m := by
    intro k v hv
    rcases (hget k v).mp hv with hempty | ⟨-, -, hcurrent⟩
    · cases hempty
    · exact hnamed k v hcurrent
  refine ⟨?_, ?_, ?_⟩
  · intro credentialId hid
    exact (hall credentialId hid).resolve_left (by simp [OrderedMap.has])
  · intro material
    rw [OrderedMap.mem_values]
    simp [hget]
  · rw [hkeyed.keys_eq]
    exact m.nodup

/-- Materials that are what there is for their ids are gathered as they are. -/
lemma gather_materials (hnodup : (materials.map (·.credentialId)).Nodup)
    (hcurrent : ∀ material ∈ materials, current material.credentialId = .ok (some material)) :
    gather current (materials.map (·.credentialId)) = .ok materials := by
  have hfold : ∀ {m : OrderedMap String CredentialMaterialEntry},
      (∀ material ∈ materials, material.credentialId ∉ m.keys) →
      (materials.map (·.credentialId)).foldlM (gatherOne current) m =
        .ok (Shadowing.puts (·.credentialId) m materials) := by
    induction materials with
    | nil => exact fun _ => rfl
    | cons material materials ih =>
      intro m hnew
      rw [List.map_cons, List.nodup_cons] at hnodup
      have hone : gatherOne current m material.credentialId =
          .ok (m.set material.credentialId material) := by
        have hhas : ¬ m.has material.credentialId := fun h =>
          hnew material List.mem_cons_self (OrderedMap.has_iff.1 h)
        simp only [gatherOne, if_neg hhas, hcurrent material List.mem_cons_self]
        rfl
      rw [List.map_cons, List.foldlM_cons, hone]
      refine ih hnodup.2 (fun other hother => hcurrent other (List.mem_cons_of_mem _ hother)) ?_
      intro other hother hkey
      rcases OrderedMap.mem_keys_insert.1 hkey with hkey | hkey
      · exact hnodup.1 (hkey ▸ List.mem_map_of_mem hother)
      · exact hnew other (List.mem_cons_of_mem _ hother) hkey
  rw [gather, hfold (by simp [OrderedMap.keys, OrderedMap.empty])]
  exact congrArg Except.ok
    (Shadowing.values_puts hnodup (by simp [OrderedMap.keys, OrderedMap.empty]))

end

/-! ### A small company -/

/-- A team below a company that pays for one model, which an instance of the team uses. -/
def company : Tables where
  tenant := [⟨"company", none⟩, ⟨"team", some "company"⟩]
  model := [⟨"model", "company", "large", false⟩]
  modelProvider := [⟨"modelProvider", "company", "acme", "acme", "https://acme", some "key", none,
    false⟩]
  modelOffering := [⟨"offering", "company", "model", "modelProvider", 0, [], none, false⟩]
  credential := [⟨"key", "company", none, "provider", "acme", "closed", none, .active⟩]
  provider := [⟨"provider", "company", "acme", "acme", some "https://acme"⟩]
  workflowDefinition := [⟨"definition", "team", some [⟨"large", none, none⟩]⟩]
  workflowRun := [⟨"run", "team", "running", none, some "address", some "definition", none, none⟩]

lemma wellKeyed_company : company.WellKeyed :=
  ⟨by decide, by decide, by decide, by decide, by decide, by decide, by decide⟩

/-- A cipher that leaves a secret as it is. -/
def plainly (secret _ : String) : Option String := some secret

def acmeKey : CredentialMaterialEntry := ⟨"key", "acme", "https://acme", "closed"⟩

example : resolveInferenceMaterials plainly company "team" ["key"] = .ok [acmeKey] := by decide

end Workbench.Catalog
