import Workbench.Catalog.ModelSources
import Workbench.Lib.Ranking

/-!
The order in which the offerings for a requirement are tried.

The preference of the invoker counts before that of the creator, and both before the priorities of
the catalog. A preference that pins leaves only the providers it names.
-/

namespace Workbench.Catalog

open List Workbench.Lib Workbench.Lib.Ranking
open Workbench.Settings (EffectiveInferenceRow ResolvesBefore resolvesBefore_iff)
open Workbench.Web.Threads (unitsLe utf16Of)

variable {visible candidates : List ResolvedOffering}
  {preference invoker : Option ProviderPreference} {requirement : ModelRequirement}
  {order : List String} {name : String}

/-- The catalog does not put `b` before `a`. -/
def Precedes (a b : ResolvedOffering) : Prop := byPriority b a ≠ .lt

instance : DecidableRel Precedes := fun a b => inferInstanceAs (Decidable (byPriority b a ≠ .lt))

/-- An offering as the settings show it. -/
def shown (o : ResolvedOffering) : EffectiveInferenceRow where
  offeringId := o.offering.id
  canonicalName := o.model.canonicalName
  providerName := o.provider.name
  priority := o.offering.priority
  provenance := if o.origin.direct then .setHere else .inherited

lemma precedes_shown {a b : ResolvedOffering} :
    Precedes a b ↔ ResolvesBefore (shown a) (shown b) := Iff.rfl

instance : Std.Total Precedes where
  total a b := Std.Total.total (r := ResolvesBefore) (shown a) (shown b)

instance : IsTrans ResolvedOffering Precedes where
  trans a b c := IsTrans.trans (r := ResolvesBefore) (shown a) (shown b) (shown c)

lemma precedes_iff {a b : ResolvedOffering} : Precedes a b ↔
    a.offering.priority < b.offering.priority ∨ a.offering.priority = b.offering.priority ∧
      unitsLe (utf16Of a.offering.id) (utf16Of b.offering.id) := by
  rw [precedes_shown, resolvesBefore_iff]
  rfl

/-- A preference that pins names the provider of the offering. -/
def admits (preference : Option ProviderPreference) (o : ResolvedOffering) : Bool :=
  match preference with
  | some ⟨.pin, order⟩ => o.provider.name ∈ order
  | _ => true

/-- The place that a preference gives to an offering. -/
def placeIn (preference : Option ProviderPreference) (o : ResolvedOffering) : ℕ :=
  match preference with
  | none => 0
  | some preference => placeOf (fun o : ResolvedOffering => rankOf preference.order o.provider.name)
      preference.order.length o

lemma rankOf_eq_some {rank : ℕ} (h : rankOf order name = some rank) : order[rank]? = some name := by
  obtain ⟨⟨found, i⟩, hfind, rfl⟩ := Option.map_eq_some_iff.mp h
  have hname : found = name := by simpa using List.find?_some hfind
  have hmem := List.mem_reverse.mp (List.mem_of_find?_eq_some hfind)
  rw [← hname]
  simpa [List.mem_zipIdx_iff_getElem?] using hmem

lemma isSome_rankOf : (rankOf order name).isSome ↔ name ∈ order := by
  rw [rankOf, Option.isSome_map, List.find?_isSome]
  constructor
  · rintro ⟨⟨found, i⟩, hmem, hfound⟩
    have hname : found = name := by simpa using hfound
    rw [List.mem_reverse, List.mem_zipIdx_iff_getElem?] at hmem
    exact hname ▸ List.mem_of_getElem? hmem
  · intro hmem
    obtain ⟨i, hi⟩ := List.getElem?_of_mem hmem
    exact ⟨(name, i), by rwa [List.mem_reverse, List.mem_zipIdx_iff_getElem?], by simp⟩

/-- A preference brings what it names to the front, and leaves the rest where it prefers only. -/
lemma applyPreference_some {mode : PreferenceMode} :
    applyPreference candidates (some ⟨mode, order⟩) =
      named (fun o : ResolvedOffering => rankOf order o.provider.name) candidates ++
        if mode = .pin then []
        else unnamed (fun o : ResolvedOffering => rankOf order o.provider.name) candidates := by
  cases mode
  · exact (List.append_nil _).symm
  · rfl

lemma applyPreference_perm : applyPreference candidates preference ~
    candidates.filter (admits preference) := by
  match preference with
  | none => exact .of_eq (List.filter_eq_self.mpr fun _ _ => rfl).symm
  | some ⟨.pin, order⟩ =>
    rw [applyPreference_some, if_pos rfl, List.append_nil]
    refine perm_named.trans (.of_eq (List.filter_congr fun o _ => ?_))
    rw [admits, Bool.eq_iff_iff, isSome_rankOf, decide_eq_true_eq]
  | some ⟨.prefer, order⟩ =>
    rw [applyPreference_some, if_neg (by decide)]
    exact perm_fronted.trans (.of_eq (List.filter_eq_self.mpr fun _ _ => rfl).symm)

lemma applyPreference_pairwise {s : ResolvedOffering → ResolvedOffering → Prop}
    (hs : candidates.Pairwise s) :
    (applyPreference candidates preference).Pairwise (ThenBy (placeIn preference) s) := by
  match preference with
  | none => exact hs.imp fun hab => .inr ⟨rfl, hab⟩
  | some ⟨mode, order⟩ =>
    rw [applyPreference_some]
    split_ifs
    · rw [List.append_nil]
      exact pairwise_named hs
    · refine pairwise_fronted (fun o rank hrank => ?_) hs
      exact (List.getElem?_eq_some_iff.mp (rankOf_eq_some hrank)).1

/-- An offering serves a requirement: it is of the model, can do what is required, and is of a
provider that no preference leaves out. -/
def eligible (requirement : ModelRequirement) (invoker : Option ProviderPreference)
    (o : ResolvedOffering) : Bool :=
  o.model.canonicalName = requirement.model &&
    (requirement.capabilities.getD []).all (· ∈ o.offering.capabilities) &&
    admits requirement.providers o && admits invoker o

/-- A requirement without capabilities leaves nothing out. -/
lemma able_eq (required : Option (List String)) : (match required with
      | none | some [] => candidates
      | some required => candidates.filter fun o => required.all (· ∈ o.offering.capabilities)) =
    candidates.filter fun o => (required.getD []).all (· ∈ o.offering.capabilities) := by
  match required with
  | none | some [] => exact (List.filter_eq_self.mpr fun _ _ => rfl).symm
  | some (_ :: _) => rfl

/-- First what the invoker prefers, then what the creator prefers, then by the catalog. -/
def TriedBefore (requirement : ModelRequirement) (invoker : Option ProviderPreference) :
    ResolvedOffering → ResolvedOffering → Prop :=
  ThenBy (placeIn invoker) (ThenBy (placeIn requirement.providers) Precedes)

/-- What is left of what the tenant sees, in the order of the catalog. -/
def ableFor (visible : List ResolvedOffering) (requirement : ModelRequirement) :
    List ResolvedOffering :=
  ((visible.filter (·.model.canonicalName = requirement.model)).insertionSort Precedes).filter
    fun o => (requirement.capabilities.getD []).all (· ∈ o.offering.capabilities)

lemma candidatesFor_eq : candidatesFor visible requirement invoker =
    applyPreference (applyPreference (ableFor visible requirement) requirement.providers) invoker :=
  congrArg (fun able => applyPreference (applyPreference able requirement.providers) invoker)
    (able_eq requirement.capabilities)

lemma candidatesFor_perm : candidatesFor visible requirement invoker ~
    visible.filter (eligible requirement invoker) := by
  calc candidatesFor visible requirement invoker
    _ = applyPreference (applyPreference (ableFor visible requirement) requirement.providers)
        invoker := candidatesFor_eq
    _ ~ (applyPreference (ableFor visible requirement) requirement.providers).filter
        (admits invoker) := applyPreference_perm
    _ ~ ((ableFor visible requirement).filter (admits requirement.providers)).filter
        (admits invoker) := applyPreference_perm.filter _
    _ ~ visible.filter (eligible requirement invoker) := by
      simp only [ableFor, List.filter_filter]
      refine ((perm_insertionSort Precedes _).filter _).trans (.of_eq ?_)
      rw [List.filter_filter]
      refine List.filter_congr fun o _ => ?_
      rw [eligible]
      ac_rfl

lemma mem_candidatesFor {o : ResolvedOffering}
    (h : o ∈ candidatesFor visible requirement invoker) : o ∈ visible :=
  (List.mem_filter.mp (candidatesFor_perm.subset h)).1

/-- **The offerings that are tried** are those that serve the requirement, in the order of the two
preferences and of the catalog. -/
theorem candidatesFor_spec (visible : List ResolvedOffering) (requirement : ModelRequirement)
    (invoker : Option ProviderPreference) :
    candidatesFor visible requirement invoker ~ visible.filter (eligible requirement invoker) ∧
      (candidatesFor visible requirement invoker).Pairwise (TriedBefore requirement invoker) := by
  refine ⟨candidatesFor_perm, ?_⟩
  rw [candidatesFor_eq]
  have hable : (ableFor visible requirement).Pairwise Precedes :=
    (pairwise_insertionSort Precedes _).filter _
  exact applyPreference_pairwise (applyPreference_pairwise hable)

end Workbench.Catalog
