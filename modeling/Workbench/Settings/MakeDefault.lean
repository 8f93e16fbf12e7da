import Workbench.Lib.Regex
import Workbench.Settings.GlobalRoute

/-!
Making an offering the default of its provider.

The settings work on rows that are flattened from the catalog, the default is read off the catalog
itself. Both leave out the offerings that are no chat models, each in its own way, and both come to
the same offerings.
-/

namespace Workbench.Settings

open List
open Workbench.Lib (Regex)
open Workbench.Lib.Regex (seqs alts alt opt one caseless start finish)

/-! ### The catalog -/

structure ModelOfferingInfo where
  offeringId : String
  providerId : String
  providerName : String
  plugin : String
  priority : ℤ
  capabilities : List String
  deriving DecidableEq, Repr

structure ModelInfo where
  id : String
  canonicalName : String
  displayName : Option String
  offerings : List ModelOfferingInfo
  deriving DecidableEq, Repr

structure DefaultProviderModel where
  canonicalName : String
  displayName : Option String
  deriving DecidableEq, Repr

/-! ### Chat models -/

def nameStart (isIn : Char → Bool) : Regex := alt start (one isIn)

def isNameSeparator (c : Char) : Bool := c = '-' || c = '_' || c = '/'

/-- `/(^|[-_/])embed(ding)?|(^|[-_/])(minilm|bge|gte|e5|arctic-embed)(-|_|:|$)/i` -/
def embeddingModelNamePattern : Regex :=
  alt (seqs [nameStart isNameSeparator, caseless "embed", opt (caseless "ding")])
    (seqs [nameStart isNameSeparator,
      alts (["minilm", "bge", "gte", "e5", "arctic-embed"].map caseless),
      alt (one fun c => c = '-' || c = '_' || c = ':') finish])

/-- `/(^|\/)(hf\.co|huggingface\.co)\//i` -/
def huggingFaceOrGgufNamePattern : Regex :=
  seqs [nameStart (· = '/'), alts (["hf.co", "huggingface.co"].map caseless), one (· = '/')]

section

variable (toLowerCase : String → String)

def isEmbeddingModelName (canonicalName : String) : Bool :=
  embeddingModelNamePattern.test canonicalName

def isGgufOrHuggingFacePath (canonicalName : String) : Bool :=
  (toLowerCase canonicalName).toList.tails.any ".gguf".toList.isPrefixOf ||
    huggingFaceOrGgufNamePattern.test canonicalName

def isCompletionCapable (capabilities : List String) (canonicalName : String) : Bool :=
  if isGgufOrHuggingFacePath toLowerCase canonicalName then false
  else if 0 < capabilities.length then capabilities.contains "plain-text"
  else !isEmbeddingModelName canonicalName

def preferCompletionCapable {α : Type} (offerings : List α) (capabilitiesOf : α → List String)
    (canonicalNameOf : α → String) : List α :=
  offerings.filter fun offering =>
    isCompletionCapable toLowerCase (capabilitiesOf offering) (canonicalNameOf offering)

def chatCapableModel (model : ModelInfo) : Option ModelInfo :=
  let offerings := preferCompletionCapable toLowerCase model.offerings (·.capabilities)
    fun _ => model.canonicalName
  if offerings.length = 0 then none
  else if offerings.length = model.offerings.length then some model
  else some { model with offerings := offerings }

def chatCapableModels (models : List ModelInfo) : List ModelInfo :=
  models.filterMap (chatCapableModel toLowerCase)

/-! ### The rows of the settings -/

def effectiveRow (ownOfferingIds : List String) (canonicalName : String)
    (offering : ModelOfferingInfo) : EffectiveInferenceRow where
  offeringId := offering.offeringId
  canonicalName := canonicalName
  providerName := offering.providerName
  priority := offering.priority
  provenance := if ownOfferingIds.contains offering.offeringId then .setHere else .inherited

def buildEffectiveInferenceRows (models : List ModelInfo) (ownOfferingIds : List String) :
    List EffectiveInferenceRow :=
  (chatCapableModels toLowerCase models).flatMap fun model =>
    model.offerings.map (effectiveRow ownOfferingIds model.canonicalName)

/-- The rows of one provider. -/
def providerRows (models : List ModelInfo) (ownOfferingIds : List String) (providerName : String) :
    List EffectiveInferenceRow :=
  (buildEffectiveInferenceRows toLowerCase models ownOfferingIds).filter
    (·.providerName = providerName)

/-! ### The default of a provider -/

/-- An offering of a provider, with what the default says of its model. -/
structure DefaultCandidate where
  model : DefaultProviderModel
  priority : ℤ
  capabilities : List String
  deriving DecidableEq, Repr

def candidateOf (model : DefaultProviderModel) (offering : ModelOfferingInfo) : DefaultCandidate :=
  ⟨model, offering.priority, offering.capabilities⟩

def providerCandidates (models : List ModelInfo) (providerName : String) : List DefaultCandidate :=
  models.flatMap fun model =>
    (model.offerings.filter (·.providerName = providerName)).map
      (candidateOf ⟨model.canonicalName, model.displayName⟩)

def better (best : Option DefaultCandidate) (candidate : DefaultCandidate) :
    Option DefaultCandidate :=
  match best with
  | none => some candidate
  | some held => if candidate.priority < held.priority then some candidate else some held

def defaultModelForProvider (models : List ModelInfo) (providerName : String) :
    Option DefaultProviderModel :=
  ((preferCompletionCapable toLowerCase (providerCandidates models providerName) (·.capabilities)
    (·.model.canonicalName)).foldl better none).map (·.model)

end

def computeMakeDefaultPatches (providerOfferings : List EffectiveInferenceRow)
    (targetOfferingId : String) : Option (List PriorityPatch) :=
  match providerOfferings.find? (·.offeringId = targetOfferingId) with
  | none => none
  | some target =>
    if target.provenance ≠ .setHere then none
    else
      let others := providerOfferings.filter (·.offeringId ≠ targetOfferingId)
      match (others.map (·.priority)).min? with
      | none => some []
      | some minOtherPriority =>
        if target.priority < minOtherPriority then some []
        else some [⟨target.offeringId, minOtherPriority - 1⟩]

/-! ### The catalog after the patches -/

def patchOffering (patches : List PriorityPatch) (offering : ModelOfferingInfo) :
    ModelOfferingInfo :=
  match patches.find? (·.offeringId = offering.offeringId) with
  | some patch => { offering with priority := patch.priority }
  | none => offering

/-- The catalog as the hub has it when the patches have been sent. -/
def patchCatalog (patches : List PriorityPatch) (models : List ModelInfo) : List ModelInfo :=
  models.map fun model => { model with offerings := model.offerings.map (patchOffering patches) }

/-- Each offering of a catalog with its model. -/
def listed (models : List ModelInfo) : List (DefaultProviderModel × ModelOfferingInfo) :=
  models.flatMap fun model =>
    model.offerings.map fun offering => (⟨model.canonicalName, model.displayName⟩, offering)

/-- A catalog, in which each offering has its own id. -/
structure Catalog where
  models : List ModelInfo
  distinct : ((listed models).map (·.2.offeringId)).Nodup

section

variable {toLowerCase : String → String} {models : List ModelInfo} {ownOfferingIds : List String}
  {providerName : String} {patches : List PriorityPatch}

/-- The offering is one of the provider, and a chat model. -/
def isUsable (toLowerCase : String → String) (providerName : String)
    (entry : DefaultProviderModel × ModelOfferingInfo) : Bool :=
  isCompletionCapable toLowerCase entry.2.capabilities entry.1.canonicalName &&
    entry.2.providerName = providerName

lemma offerings_chatCapableModel (model : ModelInfo) :
    (chatCapableModel toLowerCase model).elim [] (fun kept =>
      kept.offerings.map (effectiveRow ownOfferingIds kept.canonicalName)) =
    (model.offerings.filter fun offering =>
      isCompletionCapable toLowerCase offering.capabilities model.canonicalName).map
        (effectiveRow ownOfferingIds model.canonicalName) := by
  have hkept : ∀ kept : List ModelOfferingInfo, kept <+ model.offerings →
      (if kept.length = 0 then none
        else if kept.length = model.offerings.length then some model
        else some { model with offerings := kept }).elim [] (fun kept =>
          kept.offerings.map (effectiveRow ownOfferingIds kept.canonicalName)) =
      kept.map (effectiveRow ownOfferingIds model.canonicalName) := by
    intro kept hsub
    split_ifs with hnone hall
    · rw [length_eq_zero_iff.mp hnone]
      rfl
    · rw [hsub.eq_of_length hall]
      rfl
    · rfl
  exact hkept _ filter_sublist

lemma listed_cons (model : ModelInfo) : listed (model :: models) =
    (model.offerings.map fun offering => (⟨model.canonicalName, model.displayName⟩, offering)) ++
      listed models := rfl

/-- The rows of a provider are those of its usable offerings. -/
lemma providerRows_eq : providerRows toLowerCase models ownOfferingIds providerName =
    ((listed models).filter (isUsable toLowerCase providerName)).map fun entry =>
      effectiveRow ownOfferingIds entry.1.canonicalName entry.2 := by
  induction models with
  | nil => rfl
  | cons model models ih =>
    have hhead : buildEffectiveInferenceRows toLowerCase (model :: models) ownOfferingIds =
        (chatCapableModel toLowerCase model).elim [] (fun kept =>
          kept.offerings.map (effectiveRow ownOfferingIds kept.canonicalName)) ++
        buildEffectiveInferenceRows toLowerCase models ownOfferingIds := by
      simp only [buildEffectiveInferenceRows, chatCapableModels, filterMap_cons]
      cases chatCapableModel toLowerCase model <;> simp
    rw [providerRows] at ih ⊢
    rw [hhead, filter_append, ih, offerings_chatCapableModel, listed_cons, filter_append,
      map_append, filter_map, filter_filter, filter_map, map_map]
    congr 2
    refine filter_congr fun offering _ => ?_
    simp [isUsable, effectiveRow, Bool.and_comm]

/-- So are the candidates for its default. -/
lemma defaultModelForProvider_eq : defaultModelForProvider toLowerCase models providerName =
    ((((listed models).filter (isUsable toLowerCase providerName)).map fun entry =>
      candidateOf entry.1 entry.2).foldl better none).map (·.model) := by
  have hcandidates : preferCompletionCapable toLowerCase (providerCandidates models providerName)
      (·.capabilities) (·.model.canonicalName) =
      ((listed models).filter (isUsable toLowerCase providerName)).map fun entry =>
        candidateOf entry.1 entry.2 := by
    induction models with
    | nil => rfl
    | cons model models ih =>
      rw [preferCompletionCapable] at ih ⊢
      rw [providerCandidates, flatMap_cons, filter_append, listed_cons, filter_append, map_append]
      refine congrArg₂ _ ?_ ih
      rw [filter_map, filter_filter, filter_map, map_map]
      rfl
  rw [defaultModelForProvider, hcandidates]

lemma listed_patchCatalog : listed (patchCatalog patches models) =
    (listed models).map (Prod.map id (patchOffering patches)) := by
  rw [listed, patchCatalog, flatMap_map, listed, map_flatMap]
  simp [map_map, Function.comp_def]

/-- The best so far is the candidate, or the candidate is still to come and a worse one is held. -/
def Awaits (candidate : DefaultCandidate) (rest : List DefaultCandidate)
    (best : Option DefaultCandidate) : Prop :=
  best = some candidate ∨ candidate ∈ rest ∧ ∀ held ∈ best, candidate.priority < held.priority

lemma awaits_better {candidate other : DefaultCandidate} {rest : List DefaultCandidate}
    {best : Option DefaultCandidate}
    (hother : other = candidate ∨ candidate.priority < other.priority)
    (h : Awaits candidate (other :: rest) best) : Awaits candidate rest (better best other) := by
  rcases h with rfl | ⟨hcandidate, hworse⟩
  · refine .inl (if_neg ?_)
    rcases hother with rfl | hlt <;> omega
  by_cases heq : other = candidate
  · subst heq
    left
    cases best with
    | none => rfl
    | some held => exact if_pos (hworse held rfl)
  · have hlt := hother.resolve_left heq
    refine .inr ⟨(mem_cons.mp hcandidate).resolve_left (Ne.symm heq), ?_⟩
    cases best with
    | none =>
      rintro held ⟨⟩
      exact hlt
    | some held =>
      have hheld := hworse held rfl
      rw [better]
      split_ifs
      · rintro _ ⟨⟩
        exact hlt
      · rintro _ ⟨⟩
        exact hheld

lemma foldl_better_of_awaits {candidate : DefaultCandidate} {rest : List DefaultCandidate}
    {best : Option DefaultCandidate}
    (hrest : ∀ other ∈ rest, other = candidate ∨ candidate.priority < other.priority)
    (h : Awaits candidate rest best) : rest.foldl better best = some candidate := by
  induction rest generalizing best with
  | nil =>
    rcases h with rfl | ⟨hnil, -⟩
    · rfl
    · cases hnil
  | cons other rest ih =>
    exact ih (fun x hx => hrest x (mem_cons_of_mem _ hx))
      (awaits_better (hrest other mem_cons_self) h)

/-- The candidate that stands before all others is the best, wherever it is listed. -/
lemma foldl_better {candidates : List DefaultCandidate} {candidate : DefaultCandidate}
    (hmem : candidate ∈ candidates)
    (h : ∀ other ∈ candidates, other = candidate ∨ candidate.priority < other.priority) :
    candidates.foldl better none = some candidate :=
  foldl_better_of_awaits h (.inr ⟨hmem, by simp⟩)

lemma isUsable_patchOffering (entry : DefaultProviderModel × ModelOfferingInfo) :
    isUsable toLowerCase providerName (Prod.map id (patchOffering patches) entry) =
      isUsable toLowerCase providerName entry := by
  have hsame : (patchOffering patches entry.2).capabilities = entry.2.capabilities ∧
      (patchOffering patches entry.2).providerName = entry.2.providerName := by
    rw [patchOffering]
    split <;> exact ⟨rfl, rfl⟩
  rw [isUsable, isUsable, Prod.map_fst, Prod.map_snd, hsame.1, hsame.2]
  rfl

lemma patchOffering_of_ne {target : String} {priority : ℤ} {offering : ModelOfferingInfo}
    (h : offering.offeringId ≠ target) :
    patchOffering [⟨target, priority⟩] offering = offering := by
  simp [patchOffering, h.symm]

variable {catalog : Catalog} {entry : DefaultProviderModel × ModelOfferingInfo}

lemma entry_unique (hentry : entry ∈ listed catalog.models)
    {other : DefaultProviderModel × ModelOfferingInfo} (hother : other ∈ listed catalog.models)
    (h : other.2.offeringId = entry.2.offeringId) : other = entry :=
  inj_on_of_nodup_map catalog.distinct hother hentry h

/-- What patches make the default that put one usable offering before the others. -/
lemma default_of_least (hentry : entry ∈ listed catalog.models)
    (husable : isUsable toLowerCase providerName entry)
    (hstay : ∀ offering : ModelOfferingInfo, offering.offeringId ≠ entry.2.offeringId →
      patchOffering patches offering = offering)
    (hleast : ∀ other ∈ listed catalog.models, isUsable toLowerCase providerName other →
      other.2.offeringId ≠ entry.2.offeringId →
        (patchOffering patches entry.2).priority < other.2.priority)
    {after : List ModelInfo}
    (hafter : listed after ~ listed (patchCatalog patches catalog.models)) :
    defaultModelForProvider toLowerCase after providerName = some entry.1 := by
  have hperm := (hafter.filter (isUsable toLowerCase providerName)).map fun entry =>
    candidateOf entry.1 entry.2
  have hmem : ∀ candidate, candidate ∈ ((listed after).filter
      (isUsable toLowerCase providerName)).map (fun entry => candidateOf entry.1 entry.2) ↔
      ∃ other ∈ listed catalog.models, isUsable toLowerCase providerName other ∧
        candidateOf other.1 (patchOffering patches other.2) = candidate := by
    intro candidate
    rw [hperm.mem_iff, listed_patchCatalog, filter_map, map_map, mem_map]
    simp only [mem_filter, Function.comp_apply, isUsable_patchOffering, and_assoc]
    rfl
  rw [defaultModelForProvider_eq,
    foldl_better ((hmem _).mpr ⟨entry, hentry, husable, rfl⟩) fun candidate hcandidate => ?_]
  · rfl
  · obtain ⟨other, hother, hotherusable, rfl⟩ := (hmem candidate).mp hcandidate
    by_cases hid : other.2.offeringId = entry.2.offeringId
    · exact .inl (by rw [entry_unique hentry hother hid])
    · right
      have hlt := hleast other hother hotherusable hid
      rwa [← hstay other.2 hid] at hlt

variable {ownOfferingIds : List String}

/-- A row of a provider is found by its offering. -/
lemma find?_providerRows {target : EffectiveInferenceRow}
    (h : target ∈ providerRows toLowerCase catalog.models ownOfferingIds providerName) :
    (providerRows toLowerCase catalog.models ownOfferingIds providerName).find?
      (·.offeringId = target.offeringId) = some target := by
  have hids : ((providerRows toLowerCase catalog.models ownOfferingIds providerName).map
      (·.offeringId)).Nodup := by
    rw [providerRows_eq, map_map]
    exact (filter_sublist.map _).nodup catalog.distinct
  cases hfind : (providerRows toLowerCase catalog.models ownOfferingIds providerName).find?
      (·.offeringId = target.offeringId) with
  | none => exact absurd (find?_eq_none.mp hfind target h) (by simp)
  | some row =>
    have hid : row.offeringId = target.offeringId := by simpa using find?_some hfind
    rw [inj_on_of_nodup_map hids (mem_of_find?_eq_some hfind) h hid]

/-- The rows of a provider show the priorities of all its usable offerings. -/
lemma priority_mem_providerRows {other : DefaultProviderModel × ModelOfferingInfo}
    {offeringId : String} (hother : other ∈ listed catalog.models)
    (husable : isUsable toLowerCase providerName other) (hne : other.2.offeringId ≠ offeringId) :
    other.2.priority ∈ ((providerRows toLowerCase catalog.models ownOfferingIds
      providerName).filter (·.offeringId ≠ offeringId)).map (·.priority) := by
  refine mem_map.mpr ⟨effectiveRow ownOfferingIds other.1.canonicalName other.2, ?_, rfl⟩
  rw [mem_filter, providerRows_eq]
  exact ⟨mem_map.mpr ⟨other, mem_filter.mpr ⟨hother, husable⟩, rfl⟩, decide_eq_true hne⟩

/-- **The patches make the offering the default**: after they have been applied, the default of the
provider is the model of the offering, in whatever order the catalog is listed then, and no other
offering has changed. -/
theorem makeDefault_agrees (toLowerCase : String → String) (catalog : Catalog)
    (ownOfferingIds : List String) (providerName : String) {target : EffectiveInferenceRow}
    (htarget : target ∈ providerRows toLowerCase catalog.models ownOfferingIds providerName)
    (hset : target.provenance = .setHere) :
    ∃ patches, computeMakeDefaultPatches
        (providerRows toLowerCase catalog.models ownOfferingIds providerName) target.offeringId =
          some patches ∧
      (∃ entry ∈ listed catalog.models, entry.2.offeringId = target.offeringId ∧
        ∀ after, listed after ~ listed (patchCatalog patches catalog.models) →
          defaultModelForProvider toLowerCase after providerName = some entry.1) ∧
      ∀ offering : ModelOfferingInfo, offering.offeringId ≠ target.offeringId →
        patchOffering patches offering = offering := by
  have hfind := find?_providerRows htarget
  rw [providerRows_eq] at htarget
  obtain ⟨entry, hentry, rfl⟩ := mem_map.mp htarget
  obtain ⟨hentry, husable⟩ := mem_filter.mp hentry
  rw [computeMakeDefaultPatches, hfind]
  simp only [if_neg (not_not.mpr hset)]
  split
  · next hnone =>
    refine ⟨[], rfl, ⟨entry, hentry, rfl, fun after hafter => ?_⟩, fun _ _ => rfl⟩
    refine default_of_least hentry husable (fun _ _ => rfl) (fun other hother hu hne => ?_) hafter
    exact absurd (min?_eq_none_iff.mp hnone)
      (ne_nil_of_mem (priority_mem_providerRows hother hu hne))
  · next least hleast =>
    have hle := (min?_eq_some_iff.mp hleast).2
    split_ifs with hlt
    · refine ⟨[], rfl, ⟨entry, hentry, rfl, fun after hafter => ?_⟩, fun _ _ => rfl⟩
      refine default_of_least hentry husable (fun _ _ => rfl) (fun other hother hu hne => ?_) hafter
      exact lt_of_lt_of_le hlt (hle _ (priority_mem_providerRows hother hu hne))
    · refine ⟨_, rfl, ⟨entry, hentry, rfl, fun after hafter => ?_⟩,
        fun _ h => patchOffering_of_ne h⟩
      refine default_of_least hentry husable (fun _ h => patchOffering_of_ne h)
        (fun other hother hu hne => ?_) hafter
      have hpatched : (patchOffering [⟨entry.2.offeringId, least - 1⟩] entry.2).priority =
          least - 1 := by
        simp [patchOffering]
      have hmin := hle _ (priority_mem_providerRows hother hu hne)
      exact lt_of_eq_of_lt hpatched (by omega)

end

/-- A provider with a chat model and an embedding model, the latter ahead of the former, and another
provider of the same chat model. -/
def smallCatalog : Catalog where
  models := [
    ⟨"m1", "nomic-embed-text", none, [⟨"o1", "p1", "ollama", "ollama", 0, []⟩]⟩,
    ⟨"m2", "gemma", none, [⟨"o2", "p1", "ollama", "ollama", 3, []⟩]⟩,
    ⟨"m3", "llama", some "Llama",
      [⟨"o3", "p1", "ollama", "ollama", 3, []⟩, ⟨"o4", "p2", "groq", "openai", 1, ["plain-text"]⟩]⟩]
  distinct := by decide

theorem makeDefault_agrees_small : ∃ patches,
    computeMakeDefaultPatches (providerRows id smallCatalog.models ["o2", "o3"] "ollama") "o3" =
        some patches ∧
      (∃ entry ∈ listed smallCatalog.models, entry.2.offeringId = "o3" ∧
        ∀ after, listed after ~ listed (patchCatalog patches smallCatalog.models) →
          defaultModelForProvider id after "ollama" = some entry.1) ∧
      ∀ offering : ModelOfferingInfo, offering.offeringId ≠ "o3" →
        patchOffering patches offering = offering :=
  @makeDefault_agrees id smallCatalog ["o2", "o3"] "ollama"
    ⟨"o3", "llama", "ollama", 3, .setHere⟩ (by decide) rfl

end Workbench.Settings
