import Workbench.Lib.StableSort
import Mathlib.Data.Int.Order.Basic
import Mathlib.Data.List.Dedup
import Mathlib.Data.List.InsertIdx

/-!
The order in which the offerings of a model are tried, and the move of one of them.

Offerings are compared by priority and then by their names, as `localeCompare` orders them. A move
rewrites the priorities of the offerings that change their place.
-/

namespace Workbench.Settings

open List Workbench.Lib.StableSort

inductive Provenance
  | setHere
  | inherited
  deriving DecidableEq, Repr

structure EffectiveInferenceRow where
  offeringId : String
  canonicalName : String
  providerName : String
  priority : ℤ
  provenance : Provenance
  deriving DecidableEq, Repr

structure PriorityPatch where
  offeringId : String
  priority : ℤ
  deriving DecidableEq, Repr

inductive Direction
  | first
  | up
  | down
  deriving DecidableEq, Repr

section Model

variable (localeCompare : String → String → Ordering)

def compareRows (left right : EffectiveInferenceRow) : Ordering :=
  (compare left.priority right.priority).then
    ((localeCompare left.canonicalName right.canonicalName).then
      ((localeCompare left.providerName right.providerName).then
        (localeCompare left.offeringId right.offeringId)))

/-- `left` is not sorted behind `right`. -/
def Precedes (left right : EffectiveInferenceRow) : Prop :=
  (compareRows localeCompare left right).isLE

instance : DecidableRel (Precedes localeCompare) := fun left right =>
  inferInstanceAs (Decidable ((compareRows localeCompare left right).isLE = true))

def orderedGlobalInferenceRows (rows : List EffectiveInferenceRow) : List EffectiveInferenceRow :=
  rows.insertionSort (Precedes localeCompare)

def basePriority (ordered : List EffectiveInferenceRow) : ℤ :=
  (ordered.map (·.priority)).min?.getD 0

/-- A patch for every row of the new order that stood elsewhere in the old one. -/
def patchesOf (ordered next : List EffectiveInferenceRow) : List PriorityPatch :=
  next.zipIdx.filterMap fun e =>
    if ordered[e.2]?.map (·.offeringId) = some e.1.offeringId then none
    else some ⟨e.1.offeringId, basePriority ordered + e.2⟩

def computeGlobalRoutePatches (rows : List EffectiveInferenceRow) (targetOfferingId : String)
    (direction : Direction) : Option (List PriorityPatch) :=
  let ordered := orderedGlobalInferenceRows localeCompare rows
  if ordered.any (·.provenance ≠ .setHere) then none
  else if 1 < (ordered.map (·.canonicalName)).dedup.length then none
  else
    match ordered.findIdx? (·.offeringId = targetOfferingId) with
    | none => none
    | some currentIndex =>
      let destination : ℤ := match direction with
        | .first => 0
        | .up => currentIndex - 1
        | .down => currentIndex + 1
      if destination < 0 ∨ ordered.length ≤ destination then some []
      else
        match ordered[currentIndex]? with
        | none => none
        | some target =>
          some (patchesOf ordered
            ((ordered.eraseIdx currentIndex).insertIdx destination.toNat target))

end Model

/-- The row as the hub has it when the patches have been sent. -/
def applyPatches (patches : List PriorityPatch) (row : EffectiveInferenceRow) :
    EffectiveInferenceRow :=
  match patches.find? (·.offeringId = row.offeringId) with
  | some patch => { row with priority := patch.priority }
  | none => row

/-- The order in which the offerings are tried when the patches have been sent. -/
def orderAfter (localeCompare : String → String → Ordering) (rows : List EffectiveInferenceRow)
    (patches : List PriorityPatch) : List String :=
  (orderedGlobalInferenceRows localeCompare (rows.map (applyPatches patches))).map (·.offeringId)

/-- The rows of a global route that can be moved here. -/
structure GlobalRoute where
  rows : List EffectiveInferenceRow
  setHere : ∀ row ∈ rows, row.provenance = .setHere
  oneModel : ∀ row ∈ rows, ∀ other ∈ rows, row.canonicalName = other.canonicalName
  distinct : (rows.map (·.offeringId)).Nodup

/-- The row at another priority. -/
def EffectiveInferenceRow.withPriority (row : EffectiveInferenceRow) (priority : ℤ) :
    EffectiveInferenceRow :=
  { row with priority := priority }

/-- What a move should make of the order: the target goes to its destination, if that is in the
list, and the others stay as they are. -/
def moveOrder (ids : List String) (target : String) : Direction → List String
  | .first => target :: ids.erase target
  | .up =>
    if ids.idxOf target = 0 then ids else (ids.erase target).insertIdx (ids.idxOf target - 1) target
  | .down =>
    if ids.length ≤ ids.idxOf target + 1 then ids
    else (ids.erase target).insertIdx (ids.idxOf target + 1) target

/-! ### The order of the rows -/

section Order

variable {localeCompare : String → String → Ordering}

lemma before_of_lt {left right : EffectiveInferenceRow} (h : left.priority < right.priority) :
    Before (Precedes localeCompare) left right := by
  have hlt : compareRows localeCompare left right = .lt := by
    rw [compareRows, compare_lt_iff_lt.mpr h]
    rfl
  have hgt : compareRows localeCompare right left = .gt := by
    rw [compareRows, compare_gt_iff_gt.mpr h]
    rfl
  unfold Before Precedes
  rw [hlt, hgt]
  exact ⟨rfl, Bool.false_ne_true⟩

variable [Std.TransCmp localeCompare]

lemma transCmp_on (f : EffectiveInferenceRow → String) :
    Std.TransCmp fun left right => localeCompare (f left) (f right) where
  eq_swap := Std.OrientedCmp.eq_swap
  isLE_trans := Std.TransCmp.isLE_trans

instance : Std.TransCmp (compareRows localeCompare) := by
  have hm : Std.TransCmp fun left right : EffectiveInferenceRow =>
    localeCompare left.canonicalName right.canonicalName := transCmp_on _
  have hp : Std.TransCmp fun left right : EffectiveInferenceRow =>
    localeCompare left.providerName right.providerName := transCmp_on _
  have ho : Std.TransCmp fun left right : EffectiveInferenceRow =>
    localeCompare left.offeringId right.offeringId := transCmp_on _
  exact inferInstanceAs (Std.TransCmp (compareLex (compareOn EffectiveInferenceRow.priority)
    (compareLex (fun left right => localeCompare left.canonicalName right.canonicalName)
      (compareLex (fun left right => localeCompare left.providerName right.providerName)
        (fun left right => localeCompare left.offeringId right.offeringId)))))

instance : Std.Total (Precedes localeCompare) where
  total left right := by
    have hswap := @Std.OrientedCmp.eq_swap _ (compareRows localeCompare) _ right left
    unfold Precedes
    rw [hswap]
    cases compareRows localeCompare left right <;> simp

instance : IsTrans EffectiveInferenceRow (Precedes localeCompare) where
  trans _ _ _ := Std.TransCmp.isLE_trans

end Order

/-! ### Renumbering a stretch of rows -/

/-- The rows with priorities counted up from `base`. -/
def renumber (base : ℤ) : List EffectiveInferenceRow → List EffectiveInferenceRow
  | [] => []
  | row :: rows => row.withPriority base :: renumber (base + 1) rows

/-- The patches that renumber the rows. -/
def renumbering (base : ℤ) : List EffectiveInferenceRow → List PriorityPatch
  | [] => []
  | row :: rows => ⟨row.offeringId, base⟩ :: renumbering (base + 1) rows

variable {base : ℤ} {row : EffectiveInferenceRow} {rows : List EffectiveInferenceRow}

@[simp] lemma offeringId_withPriority : (row.withPriority base).offeringId = row.offeringId := rfl

@[simp] lemma priority_withPriority : (row.withPriority base).priority = base := rfl

lemma map_offeringId_renumber :
    (renumber base rows).map (·.offeringId) = rows.map (·.offeringId) := by
  induction rows generalizing base with
  | nil => rfl
  | cons row rows ih => simp [renumber, ih]

lemma getLast?_renumber : (renumber base (row :: rows)).getLast? =
    (row :: rows).getLast?.map (·.withPriority (base + rows.length)) := by
  induction rows generalizing base row with
  | nil => simp [renumber]
  | cons other rows ih =>
    have hb : base + ((rows.length + 1 : ℕ) : ℤ) = base + 1 + rows.length := by omega
    have hcons : (renumber base (row :: other :: rows)).getLast? =
      (renumber (base + 1) (other :: rows)).getLast? := rfl
    rw [hcons, ih, getLast?_cons_cons, length_cons, hb]

lemma le_priority_renumber (h : row ∈ renumber base rows) : base ≤ row.priority := by
  induction rows generalizing base with
  | nil => simp [renumber] at h
  | cons other rows ih =>
    rcases mem_cons.mp h with rfl | h
    · rfl
    · have := ih h
      omega

lemma pairwise_renumber {localeCompare : String → String → Ordering} :
    (renumber base rows).Pairwise (Before (Precedes localeCompare)) := by
  induction rows generalizing base with
  | nil => exact .nil
  | cons row rows ih =>
    refine .cons (fun other h => before_of_lt ?_) ih
    have := le_priority_renumber h
    rw [priority_withPriority]
    omega

lemma applyPatches_of_not_mem (h : row.offeringId ∉ rows.map (·.offeringId)) :
    applyPatches (renumbering base rows) row = row := by
  have hnone : (renumbering base rows).find? (·.offeringId = row.offeringId) = none := by
    induction rows generalizing base with
    | nil => rfl
    | cons other rows ih =>
      rw [map_cons, mem_cons, not_or] at h
      rw [renumbering, find?_cons_of_neg (by simpa using Ne.symm h.1), ih h.2]
  rw [applyPatches, hnone]

/-- Applying the patches renumbers the rows they are for. -/
lemma map_applyPatches (h : (rows.map (·.offeringId)).Nodup) :
    rows.map (applyPatches (renumbering base rows)) = renumber base rows := by
  induction rows generalizing base with
  | nil => rfl
  | cons row rows ih =>
    obtain ⟨hrow, hrows⟩ := nodup_cons.mp h
    have hhead : applyPatches (renumbering base (row :: rows)) row =
        row.withPriority base := by
      simp [applyPatches, renumbering, EffectiveInferenceRow.withPriority]
    have htail : rows.map (applyPatches (renumbering base (row :: rows))) =
        rows.map (applyPatches (renumbering (base + 1) rows)) := by
      refine map_congr_left fun other hother => ?_
      have hne : row.offeringId ≠ other.offeringId := by
        intro heq
        exact hrow (mem_map.mpr ⟨other, hother, heq.symm⟩)
      simp [applyPatches, renumbering, hne]
    rw [map_cons, hhead, htail, ih hrows, renumber]

/-! ### The patches of a move -/

section Stretch

variable {xs old new ys : List EffectiveInferenceRow}

lemma forall₂_rotate {t x : EffectiveInferenceRow} {rows : List EffectiveInferenceRow}
    (h : ((x :: rows).map (·.offeringId)).Nodup)
    (ht : ∀ y ∈ x :: rows, y.offeringId ≠ t.offeringId) :
    Forall₂ (fun a b => a.offeringId ≠ b.offeringId) (rows ++ [t]) (x :: rows) := by
  induction rows generalizing x with
  | nil => exact .cons (ht x mem_cons_self).symm .nil
  | cons y rows ih =>
    have hx := (nodup_cons.mp h).1
    refine .cons (fun heq => hx ?_) (ih (nodup_cons.mp h).2 fun z hz => ht z (mem_cons_of_mem x hz))
    exact mem_map.mpr ⟨y, mem_cons_self, heq⟩

/-- The patches of two orders of the same length, compared row by row. -/
def differing (base : ℤ) :
    List EffectiveInferenceRow → List EffectiveInferenceRow → List PriorityPatch
  | row :: rows, other :: others =>
    if row.offeringId = other.offeringId then differing (base + 1) rows others
    else ⟨other.offeringId, base⟩ :: differing (base + 1) rows others
  | _, _ => []

lemma filterMap_zipIdx_eq_differing (b : ℤ) (passed : List EffectiveInferenceRow)
    (h : old.length = new.length) :
    (new.zipIdx passed.length).filterMap (fun e =>
      if (passed ++ old)[e.2]?.map (·.offeringId) = some e.1.offeringId then none
      else some (⟨e.1.offeringId, b + e.2⟩ : PriorityPatch)) =
        differing (b + passed.length) old new := by
  induction new generalizing old passed with
  | nil =>
    obtain rfl := length_eq_zero_iff.mp h
    rfl
  | cons other others ih =>
    obtain ⟨row, rows, rfl⟩ := exists_cons_of_length_eq_add_one h
    have hrest := ih (passed ++ [row]) (Nat.succ.inj h)
    rw [length_append, length_singleton, append_assoc, singleton_append] at hrest
    have hhead : (passed ++ row :: rows)[passed.length]? = some row := by simp
    have hb : b + ((passed.length + 1 : ℕ) : ℤ) = b + passed.length + 1 := by omega
    rw [zipIdx_cons, filterMap_cons, hhead, hrest, hb, differing]
    by_cases hid : row.offeringId = other.offeringId <;> simp [hid]

lemma differing_same (b : ℤ) : differing b ys ys = [] := by
  induction ys generalizing b with
  | nil => rfl
  | cons row rows ih => rw [differing, if_pos rfl, ih]

lemma differing_append_left (b : ℤ) :
    differing b (xs ++ old) (xs ++ new) = differing (b + xs.length) old new := by
  induction xs generalizing b with
  | nil => simp
  | cons row rows ih =>
    have hb : b + ((rows.length + 1 : ℕ) : ℤ) = b + 1 + rows.length := by omega
    rw [cons_append, cons_append, differing, if_pos rfl, ih, length_cons, hb]

lemma differing_append_right (b : ℤ)
    (h : Forall₂ (fun a b => a.offeringId ≠ b.offeringId) old new) :
    differing b (old ++ ys) (new ++ ys) = renumbering b new := by
  induction h generalizing b with
  | nil => exact differing_same b
  | cons hne _ ih => rw [cons_append, cons_append, differing, if_neg hne, ih, renumbering]

/-- Only the rows of the stretch that changes get a patch. -/
lemma patchesOf_stretch (h : Forall₂ (fun a b => a.offeringId ≠ b.offeringId) old new) :
    patchesOf (xs ++ old ++ ys) (xs ++ new ++ ys) =
      renumbering (basePriority (xs ++ old ++ ys) + xs.length) new := by
  have hlen : (xs ++ old ++ ys).length = (xs ++ new ++ ys).length := by
    simp [h.length_eq]
  have hall := filterMap_zipIdx_eq_differing (basePriority (xs ++ old ++ ys)) [] hlen
  have hdiff : differing (basePriority (xs ++ old ++ ys)) (xs ++ old ++ ys) (xs ++ new ++ ys) =
      renumbering (basePriority (xs ++ old ++ ys) + xs.length) new := by
    rw [append_assoc, append_assoc xs, differing_append_left, differing_append_right _ h]
  rw [← hdiff]
  simpa [patchesOf] using hall

lemma eq_of_perm_of_map_eq {rows others : List EffectiveInferenceRow} (hp : rows ~ others)
    (hn : (rows.map (·.offeringId)).Nodup)
    (h : rows.map (·.offeringId) = others.map (·.offeringId)) : rows = others := by
  have hinj := inj_on_of_nodup_map hn
  refine ext_getElem hp.length_eq fun i hi hi' => ?_
  refine hinj (getElem_mem hi) (hp.mem_iff.mpr (getElem_mem hi')) ?_
  have hget : (rows.map (·.offeringId))[i]? = (others.map (·.offeringId))[i]? := by rw [h]
  simpa [hi, hi'] using hget

variable {localeCompare : String → String → Ordering} [Std.TransCmp localeCompare]

/-- **Sending the patches of a stretch** gives the new order if and only if the rows next to the
stretch are not sorted into it. -/
theorem reordered_iff (xs ys : List EffectiveInferenceRow)
    (hn : ((xs ++ old ++ ys).map (·.offeringId)).Nodup)
    (hs : (xs ++ old ++ ys).Pairwise (Precedes localeCompare)) (hp : old ~ new) (hne : new ≠ [])
    (hd : Forall₂ (fun a b => a.offeringId ≠ b.offeringId) old new) :
    orderAfter localeCompare (xs ++ old ++ ys)
        (patchesOf (xs ++ old ++ ys) (xs ++ new ++ ys)) =
      (xs ++ new ++ ys).map (·.offeringId) ↔
      (∀ x ∈ xs.getLast?, ∀ m ∈ (renumber (basePriority (xs ++ old ++ ys) + xs.length) new).head?,
        Precedes localeCompare x m) ∧
      ∀ m ∈ (renumber (basePriority (xs ++ old ++ ys) + xs.length) new).getLast?, ∀ y ∈ ys.head?,
        Precedes localeCompare m y := by
  rw [patchesOf_stretch hd]
  set base := basePriority (xs ++ old ++ ys) + xs.length
  -- the patches leave the rows outside the stretch and renumber those inside
  have hp' : xs ++ old ++ ys ~ xs ++ new ++ ys := (hp.append_left xs).append_right ys
  have hnew : ((xs ++ new ++ ys).map (·.offeringId)).Nodup := (hp'.map _).nodup_iff.mp hn
  rw [map_append, map_append, nodup_append, nodup_append] at hnew
  obtain ⟨⟨-, hnew, hxnew⟩, -, hnewy⟩ := hnew
  have hxs : xs.map (applyPatches (renumbering base new)) = xs := by
    refine (map_congr_left fun x hx => applyPatches_of_not_mem fun hmem => ?_).trans (map_id xs)
    exact hxnew _ (mem_map_of_mem hx) _ hmem rfl
  have hys : ys.map (applyPatches (renumbering base new)) = ys := by
    refine (map_congr_left fun y hy => applyPatches_of_not_mem fun hmem => ?_).trans (map_id ys)
    exact hnewy _ (mem_append_right _ hmem) _ (mem_map_of_mem hy) rfl
  have hold : old.map (applyPatches (renumbering base new)) ~ renumber base new := by
    rw [← map_applyPatches hnew]
    exact hp.map _
  have hrows : (xs ++ old ++ ys).map (applyPatches (renumbering base new)) =
      xs ++ old.map (applyPatches (renumbering base new)) ++ ys := by
    rw [map_append, map_append, hxs, hys]
  have hids : (xs ++ renumber base new ++ ys).map (·.offeringId) =
      (xs ++ new ++ ys).map (·.offeringId) := by
    simp [map_offeringId_renumber]
  obtain ⟨hxold, hsy, -⟩ := pairwise_append.mp hs
  have hsx := (pairwise_append.mp hxold).1
  have hne' : renumber base new ≠ [] := by
    obtain ⟨row, rows, rfl⟩ := exists_cons_of_ne_nil hne
    simp [renumber]
  rw [orderAfter, hrows, orderedGlobalInferenceRows, ← hids,
    ← pairwise_stretch hsx (pairwise_renumber.imp And.left) hsy hne',
    ← insertionSort_stretch hold pairwise_renumber]
  constructor
  · intro h
    refine eq_of_perm_of_map_eq ?_ ?_ h
    · exact (perm_insertionSort _ _).trans ((hold.append_left xs).append_right ys)
    · rw [h, hids]
      exact (hp'.map _).nodup_iff.mp hn
  · exact fun h => congrArg _ h

/-- The stretch is a pair that is exchanged. -/
lemma exchanged_iff (xs ys : List EffectiveInferenceRow) {a b : EffectiveInferenceRow}
    (hn : ((xs ++ [a, b] ++ ys).map (·.offeringId)).Nodup)
    (hs : (xs ++ [a, b] ++ ys).Pairwise (Precedes localeCompare)) :
    orderAfter localeCompare (xs ++ [a, b] ++ ys)
        (patchesOf (xs ++ [a, b] ++ ys) (xs ++ [b, a] ++ ys)) =
      (xs ++ [b, a] ++ ys).map (·.offeringId) ↔
      (∀ x ∈ xs.getLast?, Precedes localeCompare x
        (b.withPriority (basePriority (xs ++ [a, b] ++ ys) + xs.length))) ∧
      ∀ y ∈ ys.head?, Precedes localeCompare
        (a.withPriority (basePriority (xs ++ [a, b] ++ ys) + xs.length + 1)) y := by
  have hne : a.offeringId ≠ b.offeringId := by
    have hpair : ([a, b].map (·.offeringId)).Nodup :=
      hn.sublist (((sublist_append_right xs [a, b]).trans (sublist_append_left _ ys)).map _)
    simpa using hpair
  have hd : Forall₂ (fun x y => x.offeringId ≠ y.offeringId) [a, b] [b, a] :=
    .cons hne (.cons hne.symm .nil)
  refine (reordered_iff xs ys hn hs (Perm.swap _ _ _) (cons_ne_nil _ _) hd).trans ?_
  simp [renumber]

/-- The stretch begins the route, and its last row is put first. -/
lemma rotated_iff (rows ys : List EffectiveInferenceRow) {row target : EffectiveInferenceRow}
    (hn : ((row :: rows ++ target :: ys).map (·.offeringId)).Nodup)
    (hs : (row :: rows ++ target :: ys).Pairwise (Precedes localeCompare)) :
    orderAfter localeCompare (row :: rows ++ target :: ys)
        (patchesOf (row :: rows ++ target :: ys) (target :: (row :: rows ++ ys))) =
      (target :: (row :: rows ++ ys)).map (·.offeringId) ↔
      ∀ last ∈ (row :: rows).getLast?, ∀ next ∈ ys.head?, Precedes localeCompare
        (last.withPriority (basePriority (row :: rows ++ target :: ys) + (row :: rows).length))
        next := by
  have hd : Forall₂ (fun x y => x.offeringId ≠ y.offeringId) (row :: rows ++ [target])
      (target :: row :: rows) := by
    rw [map_append, map_cons, nodup_append] at hn
    have hne : ∀ y ∈ row :: rows, y.offeringId ≠ target.offeringId := fun y hy =>
      hn.2.2 _ (mem_map_of_mem hy) _ mem_cons_self
    exact .cons (hne row mem_cons_self) (forall₂_rotate hn.1 hne)
  have hL : row :: rows ++ target :: ys = [] ++ (row :: rows ++ [target]) ++ ys := by simp
  rw [hL] at hn hs ⊢
  refine (reordered_iff [] ys hn hs (perm_append_singleton target (row :: rows))
    (cons_ne_nil _ _) hd).trans ?_
  rw [getLast?_renumber, getLast?_cons_cons]
  simp

end Stretch

/-! ### A move -/

section Move

variable {localeCompare : String → String → Ordering} {route : GlobalRoute}
  {before after : List EffectiveInferenceRow} {target : EffectiveInferenceRow}

lemma perm_ordered (rows : List EffectiveInferenceRow) :
    orderedGlobalInferenceRows localeCompare rows ~ rows :=
  perm_insertionSort _ rows

/-- A row that is in the route is found, and its route can be changed. -/
lemma computeGlobalRoutePatches_eq (direction : Direction)
    (h : orderedGlobalInferenceRows localeCompare route.rows = before ++ target :: after) :
    computeGlobalRoutePatches localeCompare route.rows target.offeringId direction =
      let destination : ℤ := match direction with
        | .first => 0
        | .up => before.length - 1
        | .down => before.length + 1
      if destination < 0 ∨ (before ++ target :: after).length ≤ destination then some []
      else some (patchesOf (before ++ target :: after)
        ((before ++ after).insertIdx destination.toNat target)) := by
  have hp : before ++ target :: after ~ route.rows := h ▸ perm_ordered route.rows
  have hset : (before ++ target :: after).any (·.provenance ≠ .setHere) = false := by
    rw [any_eq_false]
    intro row hrow
    simpa using route.setHere row (hp.subset hrow)
  have hone : ¬ 1 < ((before ++ target :: after).map (·.canonicalName)).dedup.length := by
    have hall : ∀ name ∈ ((before ++ target :: after).map (·.canonicalName)).dedup,
        name = target.canonicalName := by
      intro name hname
      obtain ⟨row, hrow, rfl⟩ := mem_map.mp (mem_dedup.mp hname)
      exact route.oneModel row (hp.subset hrow) target (hp.subset (by simp))
    have hrep := eq_replicate_of_mem hall
    have hnodup := nodup_dedup ((before ++ target :: after).map (·.canonicalName))
    rw [hrep, nodup_replicate] at hnodup
    omega
  have hnodup : ((before ++ target :: after).map (·.offeringId)).Nodup :=
    (hp.map _).nodup_iff.mpr route.distinct
  have hfind : (before ++ target :: after).findIdx? (·.offeringId = target.offeringId) =
      some before.length := by
    rw [findIdx?_append, findIdx?_cons, findIdx?_eq_none_iff.mpr]
    · simp
    · intro row hrow
      rw [map_append, map_cons, nodup_append] at hnodup
      simpa using hnodup.2.2 _ (mem_map_of_mem hrow) _ mem_cons_self
  have hget : (before ++ target :: after)[before.length]? = some target := by simp
  have herase : (before ++ target :: after).eraseIdx before.length = before ++ after := by
    rw [eraseIdx_append_of_length_le le_rfl, Nat.sub_self, eraseIdx_cons_zero]
  simp only [computeGlobalRoutePatches, h, hset, hone, hfind, hget, herase, if_false,
    Bool.false_eq_true]

/-- The rows beside the place the target goes to are not sorted into the stretch that is
renumbered: not the row before it behind the first of the stretch, and not the row after it
before the last. -/
def Fits (localeCompare : String → String → Ordering) (base : ℤ)
    (before : List EffectiveInferenceRow) (target : EffectiveInferenceRow)
    (after : List EffectiveInferenceRow) : Direction → Prop
  | .first => ∀ last ∈ before.getLast?, ∀ next ∈ after.head?,
      Precedes localeCompare (last.withPriority (base + before.length)) next
  | .up => ∀ last ∈ before.getLast?,
      (∀ previous ∈ before.dropLast.getLast?, Precedes localeCompare previous
        (target.withPriority (base + before.dropLast.length))) ∧
      ∀ next ∈ after.head?, Precedes localeCompare (last.withPriority (base + before.length)) next
  | .down => ∀ first ∈ after.head?,
      (∀ previous ∈ before.getLast?,
        Precedes localeCompare previous (first.withPriority (base + before.length))) ∧
      ∀ next ∈ after.tail.head?,
        Precedes localeCompare (target.withPriority (base + before.length + 1)) next

lemma insertIdx_length {α : Type*} (xs ys : List α) (a : α) :
    (xs ++ ys).insertIdx xs.length a = xs ++ a :: ys := by
  induction xs with
  | nil => rfl
  | cons x xs ih => rw [cons_append, length_cons, insertIdx_succ_cons, ih, cons_append]

/-- The order of the offerings is what the order of the rows is. -/
lemma moveOrder_eq (direction : Direction)
    (hn : ((before ++ target :: after).map (·.offeringId)).Nodup) :
    moveOrder ((before ++ target :: after).map (·.offeringId)) target.offeringId direction =
      match direction with
      | .first => (target :: (before ++ after)).map (·.offeringId)
      | .up =>
        if before.length = 0 then (before ++ target :: after).map (·.offeringId)
        else ((before ++ after).insertIdx (before.length - 1) target).map (·.offeringId)
      | .down =>
        if after.length = 0 then (before ++ target :: after).map (·.offeringId)
        else ((before ++ after).insertIdx (before.length + 1) target).map (·.offeringId) := by
  have hmem : target.offeringId ∉ before.map (·.offeringId) := by
    rw [map_append, map_cons, nodup_append] at hn
    exact fun h => hn.2.2 _ h _ mem_cons_self rfl
  have hidx : ((before ++ target :: after).map (·.offeringId)).idxOf target.offeringId =
      before.length := by
    rw [map_append, map_cons, idxOf_append_of_notMem hmem, idxOf_cons_self, length_map,
      Nat.add_zero]
  have herase : ((before ++ target :: after).map (·.offeringId)).erase target.offeringId =
      (before ++ after).map (·.offeringId) := by
    rw [map_append, map_cons, erase_append_right _ hmem, erase_cons_head, map_append]
  have hlen : (((before ++ target :: after).map (·.offeringId)).length ≤ before.length + 1) ↔
      after.length = 0 := by
    simp only [length_map, length_append, length_cons]
    omega
  cases direction <;> simp only [moveOrder, hidx, herase, hlen, map_insertIdx, map_cons]

/-- Without patches the order stays. -/
lemma orderAfter_nil {rows : List EffectiveInferenceRow}
    (h : rows.Pairwise (Precedes localeCompare)) :
    orderAfter localeCompare rows [] = rows.map (·.offeringId) := by
  have hid : rows.map (applyPatches []) = rows := map_id rows
  rw [orderAfter, hid, orderedGlobalInferenceRows, h.insertionSort_eq]

lemma patchesOf_same (rows : List EffectiveInferenceRow) : patchesOf rows rows = [] := by
  have h : patchesOf (rows ++ [] ++ []) (rows ++ [] ++ []) = _ := patchesOf_stretch .nil
  simpa [renumbering] using h

variable [Std.TransCmp localeCompare]

/-- **A move gives the order it should give** if and only if the rows beside it leave room. -/
theorem move_iff (direction : Direction)
    (h : orderedGlobalInferenceRows localeCompare route.rows = before ++ target :: after) :
    (∃ patches, computeGlobalRoutePatches localeCompare route.rows target.offeringId direction =
        some patches ∧
      orderAfter localeCompare (orderedGlobalInferenceRows localeCompare route.rows) patches =
        moveOrder ((orderedGlobalInferenceRows localeCompare route.rows).map (·.offeringId))
          target.offeringId direction) ↔
    Fits localeCompare (basePriority (orderedGlobalInferenceRows localeCompare route.rows))
      before target after direction := by
  have hs : (before ++ target :: after).Pairwise (Precedes localeCompare) :=
    h ▸ pairwise_insertionSort (Precedes localeCompare) route.rows
  have hp : before ++ target :: after ~ route.rows := h ▸ perm_ordered route.rows
  have hn : ((before ++ target :: after).map (·.offeringId)).Nodup :=
    (hp.map _).nodup_iff.mpr route.distinct
  have hstay := orderAfter_nil hs
  rw [computeGlobalRoutePatches_eq direction h, h, moveOrder_eq direction hn]
  have hlen : (before ++ target :: after).length = before.length + after.length + 1 := by
    simp only [length_append, length_cons]
    omega
  cases direction with
  | first =>
    have hin : ¬ ((0 : ℤ) < 0 ∨ ((before ++ target :: after).length : ℤ) ≤ 0) := by omega
    simp only [if_neg hin, Option.some.injEq, exists_eq_left']
    cases before with
    | nil => simpa [patchesOf_same, Fits] using hstay
    | cons b bs => exact rotated_iff bs after hn hs
  | up =>
    rcases eq_nil_or_concat' before with rfl | ⟨xs, last, rfl⟩
    · simpa [Fits] using hstay
    · -- the stretch is the row before the target and the target
      have hin : ¬ (((xs ++ [last]).length : ℤ) - 1 < 0 ∨
          ((xs ++ [last] ++ target :: after).length : ℤ) ≤ (xs ++ [last]).length - 1) := by
        simp only [length_append, length_cons, length_nil]
        omega
      have hto : (((xs ++ [last]).length : ℤ) - 1).toNat = xs.length := by simp
      have hpos : (xs ++ [last]).length ≠ 0 := by simp
      have hlast : (xs ++ [last]).length - 1 = xs.length := by simp
      have hL : xs ++ [last] ++ target :: after = xs ++ [last, target] ++ after := by simp
      have hnext : (xs ++ [last] ++ after).insertIdx xs.length target =
          xs ++ [target, last] ++ after := by
        rw [append_assoc, insertIdx_length]
        simp
      simp only [if_neg hin, Option.some.injEq, exists_eq_left', hto, if_neg hpos, hlast, hnext]
      rw [hL] at hn hs ⊢
      refine (exchanged_iff xs after hn hs).trans ?_
      simp [Fits, Int.add_assoc]
  | down =>
    cases after with
    | nil => simpa [Fits] using hstay
    | cons first ys =>
      have hin : ¬ ((before.length : ℤ) + 1 < 0 ∨
          ((before ++ target :: first :: ys).length : ℤ) ≤ before.length + 1) := by
        simp only [length_append, length_cons]
        omega
      have hto : ((before.length : ℤ) + 1).toNat = before.length + 1 := by omega
      have hL : before ++ target :: first :: ys = before ++ [target, first] ++ ys := by simp
      have hnext : (before ++ first :: ys).insertIdx (before.length + 1) target =
          before ++ [first, target] ++ ys := by
        have := insertIdx_length (before ++ [first]) ys target
        simpa using this
      simp only [if_neg hin, Option.some.injEq, exists_eq_left', hto, length_cons,
        Nat.add_one_ne_zero, if_false, hnext]
      rw [hL] at hn hs ⊢
      refine (exchanged_iff before ys hn hs).trans ?_
      simp [Fits]

end Move

/-- Three offerings of one model that were given no priority. -/
def seededRoute : GlobalRoute where
  rows := ["a", "b", "c"].map fun offeringId => ⟨offeringId, "model", "provider", 0, .setHere⟩
  setHere := by simp
  oneModel := by simp
  distinct := by decide

/-- The third one can be put first. -/
theorem move_third_first : ∃ patches,
    computeGlobalRoutePatches compare seededRoute.rows "c" .first = some patches ∧
      orderAfter compare (orderedGlobalInferenceRows compare seededRoute.rows) patches =
        moveOrder ((orderedGlobalInferenceRows compare seededRoute.rows).map (·.offeringId)) "c"
          .first := by
  have h : orderedGlobalInferenceRows compare seededRoute.rows =
      [⟨"a", "model", "provider", 0, .setHere⟩, ⟨"b", "model", "provider", 0, .setHere⟩] ++
        ⟨"c", "model", "provider", 0, .setHere⟩ :: [] := by decide
  exact (move_iff .first h).mpr (by simp [Fits])

/-- The second one cannot: the third keeps its priority and is tried before the first. -/
theorem not_move_second_first : ¬ ∃ patches,
    computeGlobalRoutePatches compare seededRoute.rows "b" .first = some patches ∧
      orderAfter compare (orderedGlobalInferenceRows compare seededRoute.rows) patches =
        moveOrder ((orderedGlobalInferenceRows compare seededRoute.rows).map (·.offeringId)) "b"
          .first := by
  rintro ⟨patches, hpatches, horder⟩
  have hsent : computeGlobalRoutePatches compare seededRoute.rows "b" .first =
      some [⟨"b", 0⟩, ⟨"a", 1⟩] := by decide
  obtain rfl := Option.some.inj (hsent.symm.trans hpatches)
  have hgot : orderAfter compare (orderedGlobalInferenceRows compare seededRoute.rows)
      [⟨"b", 0⟩, ⟨"a", 1⟩] = ["b", "c", "a"] := by decide
  rw [hgot] at horder
  exact absurd horder (by decide)

end Workbench.Settings
