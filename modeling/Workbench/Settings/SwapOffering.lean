import Workbench.Web.DeploySource

/-!
Replacing one offering of a declared chain by another.

The ids of the chain and its sources are two lists side by side. Both are rewritten, and where the
new offering was in the chain already, both are rid of the place where it is named a second time.
-/

namespace Workbench.Settings

open List
open Workbench.Web (ExistingOffering)
open Workbench.Worker (InferencePreference)

/-- `filter` with the positions -/
def filterAt {α : Type} (keep : α → ℕ → Bool) (elements : List α) : List α :=
  (elements.zipIdx.filter fun e => keep e.1 e.2).map Prod.fst

def firstSeen (swappedIds : List String) (id : String) (position : ℕ) : Bool :=
  swappedIds.idxOf? id = some position

variable {ν : Type}

def swapDeclaredOffering (before : ExistingOffering ν) (oldOfferingId newOfferingId : String)
    (provider newCanonicalName : String) : Option (ExistingOffering ν) :=
  match before.sourceOfferingIds.idxOf? oldOfferingId with
  | none => none
  | some index =>
    let swappedIds := before.sourceOfferingIds.map fun id =>
      if id = oldOfferingId then newOfferingId else id
    let swappedSources := before.declaredSources.mapIdx fun position source =>
      if position = index then ⟨provider, newCanonicalName, none⟩ else source
    some {
      sourceOfferingIds := filterAt (firstSeen swappedIds) swappedIds
      defaultSourceOfferingId :=
        if before.defaultSourceOfferingId = oldOfferingId then newOfferingId
        else before.defaultSourceOfferingId
      declaredSources := filterAt
        (fun _ position => firstSeen swappedIds (swappedIds[position]?.getD "") position)
        swappedSources }

/-- A chain as it is declared: a source for each id, and the default among the ids. -/
structure DeclaredChain (ν : Type) where
  offering : ExistingOffering ν
  distinct : offering.sourceOfferingIds.Nodup
  aligned : offering.sourceOfferingIds.length = offering.declaredSources.length
  hasDefault : offering.defaultSourceOfferingId ∈ offering.sourceOfferingIds

/-- The ids of a chain with their sources. -/
def paired (offering : ExistingOffering ν) : List (String × InferencePreference ν) :=
  offering.sourceOfferingIds.zip offering.declaredSources

/-- The chain is one again, with the new offering for the old one. The others have the sources that
they had, in the order that they had. -/
structure Swapped (before after : ExistingOffering ν) (oldOfferingId newOfferingId : String) :
    Prop where
  distinct : after.sourceOfferingIds.Nodup
  aligned : after.sourceOfferingIds.length = after.declaredSources.length
  hasDefault : after.defaultSourceOfferingId ∈ after.sourceOfferingIds
  removed : oldOfferingId ∉ after.sourceOfferingIds
  added : newOfferingId ∈ after.sourceOfferingIds
  others : ((paired after).filter fun e => e.1 ≠ oldOfferingId ∧ e.1 ≠ newOfferingId) =
    (paired before).filter fun e => e.1 ≠ oldOfferingId ∧ e.1 ≠ newOfferingId

/-! ### Keeping the first place of each id -/

section

variable {β : Type} {ids : List String} {id : String} {bs : List β} {b : β}

/-- What stands beside the first place of an id. -/
def keepFirst (ids : List String) (bs : List β) : List β :=
  filterAt (fun _ position => firstSeen ids (ids[position]?.getD "") position) bs

lemma filterAt_firstSeen : filterAt (firstSeen ids) ids = keepFirst ids ids := by
  unfold keepFirst filterAt
  refine congrArg _ (filter_congr fun e he => ?_)
  simp only [mem_zipIdx_iff_getElem?.mp he, Option.getD_some]

lemma firstSeen_concat_of_lt {position : ℕ} (h : position < ids.length) :
    firstSeen (ids ++ [id]) ((ids ++ [id])[position]?.getD "") position =
      firstSeen ids (ids[position]?.getD "") position := by
  have hmem : ids.findIdx? (· == ids[position]) ≠ none :=
    idxOf?_eq_none_iff.not.mpr (not_not.mpr (getElem_mem h))
  obtain ⟨place, hplace⟩ := Option.ne_none_iff_exists'.mp hmem
  rw [getElem?_append_left h, getElem?_eq_getElem h, Option.getD_some, firstSeen, firstSeen,
    idxOf?, findIdx?_append, hplace, Option.some_or]

lemma firstSeen_concat_length :
    firstSeen (ids ++ [id]) ((ids ++ [id])[ids.length]?.getD "") ids.length =
      decide (id ∉ ids) := by
  rw [getElem?_concat_length, Option.getD_some, firstSeen, decide_eq_decide, idxOf?,
    findIdx?_append]
  cases hplace : ids.findIdx? (· == id) with
  | none =>
    have hnot : id ∉ ids := idxOf?_eq_none_iff.mp hplace
    simp [hnot]
  | some place =>
    obtain ⟨hlt, heq, -⟩ := findIdx?_eq_some_iff_getElem.mp hplace
    have hmem : id ∈ ids := by
      rw [← beq_iff_eq.mp heq]
      exact getElem_mem hlt
    simp only [Option.some_or, Option.some.injEq, hmem, not_true_eq_false, iff_false]
    omega

lemma keepFirst_concat (h : bs.length = ids.length) :
    keepFirst (ids ++ [id]) (bs ++ [b]) = keepFirst ids bs ++ if id ∈ ids then [] else [b] := by
  have hold : (bs.zipIdx.filter fun e => firstSeen (ids ++ [id])
      ((ids ++ [id])[e.2]?.getD "") e.2) =
        bs.zipIdx.filter fun e => firstSeen ids (ids[e.2]?.getD "") e.2 := by
    refine filter_congr fun e he => firstSeen_concat_of_lt ?_
    obtain ⟨hlt, -⟩ := List.getElem?_eq_some_iff.mp (mem_zipIdx_iff_getElem?.mp he)
    omega
  rw [keepFirst, filterAt, zipIdx_append, filter_append, map_append, hold]
  refine congrArg _ ?_
  rw [zipIdx_singleton, Nat.zero_add, h, filter_cons, firstSeen_concat_length]
  by_cases hmem : id ∈ ids <;> simp [hmem]

lemma mem_keepFirst {x : String} : x ∈ keepFirst ids ids ↔ x ∈ ids := by
  induction ids using List.reverseRecOn with
  | nil => rfl
  | append_singleton ids id ih =>
    rw [keepFirst_concat rfl, mem_append, ih, mem_append, mem_singleton]
    split_ifs with hmem
    · constructor
      · rintro (h | h)
        · exact .inl h
        · cases h
      · rintro (h | rfl)
        · exact .inl h
        · exact .inl hmem
    · rw [mem_singleton]

lemma nodup_keepFirst : (keepFirst ids ids).Nodup := by
  induction ids using List.reverseRecOn with
  | nil => exact nodup_nil
  | append_singleton ids id ih =>
    rw [keepFirst_concat rfl]
    split_ifs with hmem
    · rwa [append_nil]
    · refine nodup_append.mpr ⟨ih, nodup_singleton id, ?_⟩
      rintro x hx _ hy rfl
      exact hmem (mem_singleton.mp hy ▸ mem_keepFirst.1 hx)

/-- Two lists of one length, an element more at the end of each at a time. -/
@[elab_as_elim]
lemma aligned_induction {motive : ∀ (ids : List String) (bs : List β),
    bs.length = ids.length → Prop} (nil : motive [] [] rfl)
    (concat : ∀ ids id bs b (h : bs.length = ids.length), motive ids bs h →
      motive (ids ++ [id]) (bs ++ [b]) (by simp [h]))
    (ids : List String) (bs : List β) (h : bs.length = ids.length) : motive ids bs h := by
  induction ids using List.reverseRecOn generalizing bs with
  | nil =>
    obtain rfl := length_eq_zero_iff.mp h
    exact nil
  | append_singleton ids id ih =>
    rcases eq_nil_or_concat' bs with rfl | ⟨bs, b, rfl⟩
    · simp at h
    · have hlen : bs.length = ids.length := by simpa using h
      exact concat ids id bs b hlen (ih bs hlen)

lemma length_keepFirst (h : bs.length = ids.length) :
    (keepFirst ids bs).length = (keepFirst ids ids).length := by
  induction ids, bs, h using aligned_induction with
  | nil => rfl
  | concat ids id bs b hlen ih =>
    rw [keepFirst_concat hlen, keepFirst_concat rfl, length_append, length_append, ih]
    split_ifs <;> rfl

/-- Ids that are there once keep what stands beside them. -/
lemma filter_zip_keepFirst {isIn : String → Bool} (h : bs.length = ids.length)
    (honce : (ids.filter isIn).Nodup) :
    ((keepFirst ids ids).zip (keepFirst ids bs)).filter (fun e => isIn e.1) =
      (ids.zip bs).filter fun e => isIn e.1 := by
  induction ids, bs, h using aligned_induction with
  | nil => rfl
  | concat ids id bs b hlen ih =>
    rw [filter_append, nodup_append] at honce
    rw [keepFirst_concat hlen, keepFirst_concat rfl, zip_append (length_keepFirst hlen).symm,
      zip_append hlen.symm, filter_append, filter_append, ih honce.1]
    refine congrArg _ ?_
    split_ifs with hmem
    · cases hin : isIn id with
      | false => simp [hin]
      | true =>
        have htwice := honce.2.2 id (mem_filter.mpr ⟨hmem, hin⟩) id (by simp [hin])
        exact absurd rfl htwice
    · rfl

end

/-! ### The chain after the swap -/

variable {before : ExistingOffering ν}
  {oldOfferingId newOfferingId provider newCanonicalName : String}

lemma mapIdx_eq_self {α : Type} {f : ℕ → α → α} {elements : List α}
    (h : ∀ position < elements.length, ∀ a, f position a = a) : elements.mapIdx f = elements := by
  refine ext_getElem length_mapIdx fun position _ hlt => ?_
  rw [getElem_mapIdx, h position hlt]

/-- Where the old offering stands, it stands nowhere else. -/
lemma not_mem_of_cut {front back : List String} (h : (front ++ oldOfferingId :: back).Nodup) :
    oldOfferingId ∉ front ∧ oldOfferingId ∉ back :=
  ⟨fun hmem => (nodup_append.mp h).2.2 _ hmem _ mem_cons_self rfl,
    (nodup_cons.mp (nodup_append.mp h).2.1).1⟩

/-- The chain is cut at the old offering, its sources at the source of it. -/
lemma exists_chain_cut (chain : DeclaredChain ν)
    (hold : oldOfferingId ∈ chain.offering.sourceOfferingIds) :
    ∃ front back sources source others,
      chain.offering.sourceOfferingIds = front ++ oldOfferingId :: back ∧
        chain.offering.declaredSources = sources ++ source :: others ∧
          sources.length = front.length ∧ others.length = back.length := by
  obtain ⟨front, back, hids⟩ := append_of_mem hold
  have hlength := chain.aligned
  rw [hids, length_append, length_cons] at hlength
  obtain ⟨sources, rest, hsources, hlen⟩ :
      ∃ sources rest, chain.offering.declaredSources = sources ++ rest ∧
        sources.length = front.length :=
    ⟨_, _, (take_append_drop front.length _).symm, length_take_of_le (by omega)⟩
  rw [hsources, length_append] at hlength
  obtain ⟨source, others, rfl⟩ : ∃ source others, rest = source :: others :=
    exists_cons_of_length_pos (by omega)
  rw [length_cons] at hlength
  exact ⟨front, back, sources, source, others, hids, hsources, hlen, by omega⟩

/-- The swap, with the chain cut at the old offering. -/
lemma swapDeclaredOffering_eq {front back : List String}
    {sources others : List (InferencePreference ν)} {source : InferencePreference ν}
    (hids : before.sourceOfferingIds = front ++ oldOfferingId :: back)
    (hsources : before.declaredSources = sources ++ source :: others)
    (hlen : sources.length = front.length)
    (hdistinct : (front ++ oldOfferingId :: back).Nodup) :
    swapDeclaredOffering before oldOfferingId newOfferingId provider newCanonicalName = some {
      sourceOfferingIds := keepFirst (front ++ newOfferingId :: back)
        (front ++ newOfferingId :: back)
      defaultSourceOfferingId :=
        if before.defaultSourceOfferingId = oldOfferingId then newOfferingId
        else before.defaultSourceOfferingId
      declaredSources := keepFirst (front ++ newOfferingId :: back)
        (sources ++ ⟨provider, newCanonicalName, none⟩ :: others) } := by
  obtain ⟨hfront, hback⟩ := not_mem_of_cut hdistinct
  have hindex : before.sourceOfferingIds.idxOf? oldOfferingId = some front.length := by
    rw [hids, idxOf?_eq_some_iff]
    refine ⟨by simp, by simp, fun j hj heq => hfront ?_⟩
    rw [getElem_append_left hj] at heq
    exact heq ▸ getElem_mem hj
  have hsame : ∀ ids : List String, oldOfferingId ∉ ids →
      (ids.map fun id => if id = oldOfferingId then newOfferingId else id) = ids := by
    intro ids hnot
    refine (map_congr_left fun id hid => if_neg ?_).trans (map_id ids)
    rintro rfl
    exact hnot hid
  have hswapped : (before.sourceOfferingIds.map fun id =>
      if id = oldOfferingId then newOfferingId else id) = front ++ newOfferingId :: back := by
    rw [hids, map_append, map_cons, hsame front hfront, hsame back hback, if_pos rfl]
  have hmoved : (before.declaredSources.mapIdx fun position source =>
      if position = front.length then ⟨provider, newCanonicalName, none⟩ else source) =
        sources ++ ⟨provider, newCanonicalName, none⟩ :: others := by
    have hleft : (sources.mapIdx fun position source => if position = front.length then
        (⟨provider, newCanonicalName, none⟩ : InferencePreference ν) else source) = sources :=
      mapIdx_eq_self fun position hlt source => if_neg (by omega)
    have hright : (others.mapIdx fun position source =>
        if position + 1 + sources.length = front.length then
          (⟨provider, newCanonicalName, none⟩ : InferencePreference ν) else source) = others :=
      mapIdx_eq_self fun position _ source => if_neg (by omega)
    rw [hsources, mapIdx_append, mapIdx_cons, hleft, hright, Nat.zero_add, if_pos hlen]
  rw [swapDeclaredOffering, hindex]
  simp only [hswapped, hmoved, filterAt_firstSeen]
  rfl

/-- **Swapping an offering of a declared chain** gives a declared chain again, with the new offering
for the old one, whether the new one was in the chain or not. -/
theorem swapDeclaredOffering_swapped (chain : DeclaredChain ν)
    (hold : oldOfferingId ∈ chain.offering.sourceOfferingIds)
    (hne : newOfferingId ≠ oldOfferingId) :
    ∃ after, swapDeclaredOffering chain.offering oldOfferingId newOfferingId provider
        newCanonicalName = some after ∧
      Swapped chain.offering after oldOfferingId newOfferingId := by
  obtain ⟨front, back, sources, source, others, hids, hsources, hlen, hlen'⟩ :=
    exists_chain_cut chain hold
  have hdistinct := chain.distinct
  rw [hids] at hdistinct
  refine ⟨_, swapDeclaredOffering_eq hids hsources hlen hdistinct, ?_⟩
  obtain ⟨hfront, hback⟩ := not_mem_of_cut hdistinct
  have haligned : (sources ++ (⟨provider, newCanonicalName, none⟩ : InferencePreference ν) ::
      others).length = (front ++ newOfferingId :: back).length := by
    simp [hlen, hlen']
  refine ⟨nodup_keepFirst, (length_keepFirst haligned).symm, ?_, ?_, ?_, ?_⟩
  · rw [mem_keepFirst]
    have hdefault := chain.hasDefault
    rw [hids, mem_append, mem_cons] at hdefault
    split_ifs with heq
    · simp
    · rw [mem_append, mem_cons]
      exact hdefault.imp_right fun h => .inr (h.resolve_left heq)
  · rw [mem_keepFirst, mem_append, mem_cons]
    rintro (h | rfl | h)
    · exact hfront h
    · exact hne rfl
    · exact hback h
  · rw [mem_keepFirst]
    simp
  · have honce : ((front ++ newOfferingId :: back).filter fun id =>
        id ≠ oldOfferingId ∧ id ≠ newOfferingId).Nodup := by
      have hsub : front ++ back <+ front ++ oldOfferingId :: back :=
        (Sublist.refl front).append (sublist_cons_self _ _)
      rw [filter_append, filter_cons_of_neg (by simp), ← filter_append]
      exact (filter_sublist.trans hsub).nodup hdistinct
    have hkept := filter_zip_keepFirst haligned honce
    rw [zip_append hlen.symm, zip_cons_cons, filter_append, filter_cons_of_neg (by simp)] at hkept
    simp only [paired]
    rw [hids, hsources, zip_append hlen.symm, zip_cons_cons, filter_append,
      filter_cons_of_neg (by simp), hkept]

/-- A chain of three offerings. -/
def smallChain : DeclaredChain Unit where
  offering := ⟨["o1", "o2", "o3"], "o2",
    [⟨"anthropic", "opus", none⟩, ⟨"openai", "gpt", none⟩, ⟨"groq", "llama", none⟩]⟩
  distinct := by decide
  aligned := rfl
  hasDefault := by decide

/-- The third is put in the place of the second. -/
theorem swapDeclaredOffering_swapped_small : ∃ after,
    swapDeclaredOffering smallChain.offering "o2" "o3" "groq" "llama" = some after ∧
      Swapped smallChain.offering after "o2" "o3" :=
  swapDeclaredOffering_swapped smallChain (by decide) (by decide)

end Workbench.Settings
