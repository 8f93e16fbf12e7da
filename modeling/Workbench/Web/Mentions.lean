import Mathlib.Data.List.Sort
import Mathlib.Data.Set.Insert
import Mathlib.Tactic.Lemma

/-!
The agents a text mentions.

The candidates are tried one after the other, the longest name first, and what one of them matches
is blanked before the next is tried. A round is a scan from left to right: what has been matched,
and the unit in front of it, is not looked at again. So the places where a name stands and those
that the scan hits differ only where one stands close behind another.
-/

namespace Workbench.Web.Mentions

open List

/-- A code unit of UTF-16. -/
abbrev CodeUnit := UInt16

abbrev Text := List CodeUnit

/-- The units of a text in ASCII. -/
def unitsOf (text : String) : Text := text.toList.map fun c => c.toNat.toUInt16

def atSign : CodeUnit := 64

def space : CodeUnit := 32

def hyphen : CodeUnit := 45

/-- `\w` -/
def isWord (u : CodeUnit) : Bool :=
  (48 ≤ u.toNat && u.toNat ≤ 57) || (65 ≤ u.toNat && u.toNat ≤ 90) ||
    (97 ≤ u.toNat && u.toNat ≤ 122) || u.toNat = 95

/-- `[^\w@]` -/
def isLead (u : CodeUnit) : Bool := !isWord u && u ≠ atSign

/-- `[\w-]` -/
def isNameUnit (u : CodeUnit) : Bool := isWord u || u = hyphen

/-- What a unit counts as where case does not matter: its capital, but no unit outside ASCII counts
as one in it. The capitals outside ASCII are in a table. -/
def canonicalize (upper : CodeUnit → CodeUnit) (u : CodeUnit) : CodeUnit :=
  if u.toNat < 128 then if 97 ≤ u.toNat ∧ u.toNat ≤ 122 then u - 32 else u
  else if (upper u).toNat < 128 then u else upper u

section Scan

variable (upper : CodeUnit → CodeUnit) (name : Text)

/-- `@name(?![\w-])` matches at the beginning of a text. -/
def stands : Text → Bool
  | [] => false
  | u :: rest =>
    u = atSign &&
      ((rest.take name.length).map (canonicalize upper) = name.map (canonicalize upper) &&
        !((rest.drop name.length).head?.any isNameUnit))

/-- The replacement of every match of `(^|[^\w@])@name(?![\w-])`, and whether there is one. A match
is at least one unit long, so as many rounds as units are enough. -/
def replaceAll : ℕ → Bool → Text → Bool × Text
  | 0, _, text => (false, text)
  | _, _, [] => (false, [])
  | fuel + 1, first, u :: rest =>
    -- `^` matches at the beginning of the text only, so behind a match there has to be a lead
    if first && stands upper name (u :: rest) then
      let behind := replaceAll fuel false (rest.drop name.length)
      (true, List.replicate (name.length + 1) space ++ behind.2)
    else if isLead u && stands upper name rest then
      let behind := replaceAll fuel false (rest.drop (name.length + 1))
      (true, u :: (List.replicate (name.length + 1) space ++ behind.2))
    else
      let behind := replaceAll fuel false rest
      (behind.1, u :: behind.2)

end Scan

section Candidates

variable {α : Type} (upper : CodeUnit → CodeUnit) (name : α → Text)

/-- One round of the loop, from the remaining text and the candidates that are found. -/
def tryCandidate (state : Text × List α) (candidate : α) : Text × List α :=
  if (name candidate).length = 0 then state
  else
    let replaced := replaceAll upper (name candidate) state.1.length true state.1
    (replaced.2, if replaced.1 then candidate :: state.2 else state.2)

def byLength (candidates : List α) : List α :=
  candidates.insertionSort fun a b => (name b).length ≤ (name a).length

def mentionedAgents [DecidableEq α] (text : Text) (candidates : List α) : List α :=
  let found := ((byLength name candidates).foldl (tryCandidate upper name) (text, [])).2
  candidates.filter (· ∈ found)

end Candidates

variable {upper : CodeUnit → CodeUnit} {name text left front front' rest : Text} {u : CodeUnit}
  {i j k n : ℕ} {first : Bool} {hits hits' : Set ℕ}

/-! ### Units -/

lemma canonicalize_eq_atSign : canonicalize upper u = atSign ↔ u = atSign := by
  have hat : atSign.toNat = 64 := rfl
  rw [canonicalize, ← UInt16.toNat_inj, ← UInt16.toNat_inj, hat]
  split_ifs with hascii hlower hother
  · have hle : (32 : UInt16) ≤ u := by
      rw [UInt16.le_iff_toNat_le]
      exact le_trans (by decide) hlower.1
    rw [UInt16.toNat_sub_of_le _ _ hle]
    have hspace : (32 : UInt16).toNat = 32 := rfl
    omega
  · rfl
  · rfl
  · omega

/-! ### Places -/

lemma stands_drop : stands upper name (text.drop i) ↔
    text[i]? = some atSign ∧
      (∀ k < name.length, (text[i + 1 + k]?).map (canonicalize upper) =
        (name[k]?).map (canonicalize upper)) ∧
      ∀ u ∈ text[i + 1 + name.length]?, isNameUnit u = false := by
  have hdrop : (text.drop i).head? = text[i]? := List.head?_drop
  cases htext : text.drop i with
  | nil =>
    rw [htext, List.head?_nil] at hdrop
    simp [stands, ← hdrop]
  | cons u rest =>
    have hrest : rest = text.drop (i + 1) := by
      rw [← List.tail_drop, htext, List.tail_cons]
    have hbehind : (rest.drop name.length).head? = text[i + 1 + name.length]? := by
      rw [hrest, List.drop_drop, List.head?_drop]
    rw [htext, List.head?_cons] at hdrop
    have hname : (rest.take name.length).map (canonicalize upper) = name.map (canonicalize upper) ↔
        ∀ k < name.length, (text[i + 1 + k]?).map (canonicalize upper) =
          (name[k]?).map (canonicalize upper) := by
      have hget (k : ℕ) : rest[k]? = text[i + 1 + k]? := by rw [hrest, List.getElem?_drop]
      constructor
      · intro heq k hk
        rw [← hget, ← List.getElem?_map, ← List.getElem?_map, ← heq, List.getElem?_map,
          List.getElem?_map, List.getElem?_take_of_lt hk]
      · intro heq
        refine List.ext_getElem? fun k => ?_
        rw [List.getElem?_map, List.getElem?_map]
        rcases Nat.lt_or_ge k name.length with hk | hk
        · rw [List.getElem?_take_of_lt hk, hget, heq k hk]
        · rw [List.getElem?_eq_none hk, List.getElem?_eq_none (by simp [hk])]
    rw [stands, Bool.and_eq_true, Bool.and_eq_true, decide_eq_true_eq, decide_eq_true_eq, hname,
      hbehind, ← hdrop]
    refine and_congr (by simp) (and_congr_right fun _ => ?_)
    cases text[i + 1 + name.length]? <;> simp

/-- A name stands at an `@` with nothing in front that could belong to it. -/
def PlaceFrom (upper : CodeUnit → CodeUnit) (name : Text) (first : Bool) (text : Text) (i : ℕ) :
    Prop :=
  (i = 0 ∧ first ∨ ∃ j, i = j + 1 ∧ ∃ u ∈ text[j]?, isLead u) ∧ stands upper name (text.drop i)

abbrev Place (upper : CodeUnit → CodeUnit) (name : Text) (text : Text) (i : ℕ) : Prop :=
  PlaceFrom upper name true text i

lemma placeFrom_append (hi : 0 < i) :
    PlaceFrom upper name first (front ++ rest) (front.length + i) ↔
      PlaceFrom upper name false rest i := by
  obtain ⟨i, rfl⟩ := Nat.exists_eq_add_one.mpr hi
  have hdrop : (front ++ rest).drop (front.length + (i + 1)) = rest.drop (i + 1) :=
    List.drop_length_add_append (i + 1)
  have hget : (front ++ rest)[front.length + i]? = rest[i]? := by
    rw [List.getElem?_append_right (by omega), Nat.add_sub_cancel_left]
  rw [PlaceFrom, PlaceFrom, hdrop]
  refine and_congr_left fun _ => ?_
  constructor
  · rintro (⟨hzero, -⟩ | ⟨j, hj, u, hu, hlead⟩)
    · omega
    · obtain rfl : j = front.length + i := by omega
      exact .inr ⟨i, rfl, u, hget ▸ hu, hlead⟩
  · rintro (⟨hzero, -⟩ | ⟨j, hj, u, hu, hlead⟩)
    · omega
    · obtain rfl : j = i := by omega
      exact .inr ⟨front.length + j, by omega, u, hget ▸ hu, hlead⟩

/-! ### Blanked texts -/

/-- The text with the units at some places made spaces. -/
def Blanks (covered : Set ℕ) (text left : Text) : Prop :=
  ∀ j, (j ∈ covered → left[j]? = (text[j]?).map fun _ => space) ∧
    (j ∉ covered → left[j]? = text[j]?)

/-- What the tokens at some places cover. -/
def tokens (n : ℕ) (hits : Set ℕ) : Set ℕ := {j | ∃ i ∈ hits, i ≤ j ∧ j ≤ i + n}

/-- The places behind a front. -/
def behind (n : ℕ) (hits : Set ℕ) : Set ℕ := {i | ∃ j ∈ hits, i = n + j}

/-- What a scan has done. -/
structure Scanned (upper : CodeUnit → CodeUnit) (name : Text) (first : Bool) (text left : Text)
    (hits : Set ℕ) : Prop where
  blanks : Blanks (tokens name.length hits) text left
  places : ∀ i ∈ hits, PlaceFrom upper name first text i
  near : ∀ i, PlaceFrom upper name first text i → ∃ h ∈ hits, h ≤ i ∧ i ≤ h + name.length + 1

lemma Blanks.append {covered covered₁ covered₂ : Set ℕ} (hfront : Blanks covered₁ front front')
    (hrest : Blanks covered₂ rest left) (h₁ : ∀ j < front.length, j ∈ covered ↔ j ∈ covered₁)
    (h₂ : ∀ j, front.length + j ∈ covered ↔ j ∈ covered₂) (hlength : front'.length = front.length) :
    Blanks covered (front ++ rest) (front' ++ left) := by
  intro j
  rcases Nat.lt_or_ge j front.length with hj | hj
  · rw [List.getElem?_append_left hj, List.getElem?_append_left (hlength ▸ hj), h₁ j hj]
    exact hfront j
  · obtain ⟨j, rfl⟩ := Nat.exists_eq_add_of_le hj
    rw [List.getElem?_append_right (by omega), List.getElem?_append_right (by omega), hlength,
      Nat.add_sub_cancel_left, h₂]
    exact hrest j

lemma Scanned.append (hrest : Scanned upper name false rest left hits')
    (hfront : Blanks (tokens name.length hits) front front')
    (hlength : front'.length = front.length)
    (hinside : ∀ i ∈ hits, i + name.length < front.length)
    (hplaces : ∀ i ∈ hits, PlaceFrom upper name first (front ++ rest) i)
    (hnear : ∀ i ≤ front.length, PlaceFrom upper name first (front ++ rest) i →
      ∃ h ∈ hits, h ≤ i ∧ i ≤ h + name.length + 1) :
    Scanned upper name first (front ++ rest) (front' ++ left)
      (hits ∪ behind front.length hits') := by
  refine ⟨Blanks.append hfront hrest.blanks ?_ ?_ hlength, ?_, ?_⟩
  · intro j hj
    constructor
    · rintro ⟨i, hi | ⟨i, -, rfl⟩, hle, hle'⟩
      · exact ⟨i, hi, hle, hle'⟩
      · omega
    · rintro ⟨i, hi, hle, hle'⟩
      exact ⟨i, .inl hi, hle, hle'⟩
  · intro j
    constructor
    · rintro ⟨i, hi | ⟨i, hi, rfl⟩, hle, hle'⟩
      · have := hinside i hi
        omega
      · exact ⟨i, hi, by omega, by omega⟩
    · rintro ⟨i, hi, hle, hle'⟩
      exact ⟨front.length + i, .inr ⟨i, hi, rfl⟩, by omega, by omega⟩
  · have hpos : ∀ i ∈ hits', 0 < i := by
      intro i hi
      rcases (hrest.places i hi).1 with ⟨-, hfalse⟩ | ⟨j, rfl, -⟩
      · exact absurd hfalse Bool.false_ne_true
      · omega
    rintro i (hi | ⟨i, hi, rfl⟩)
    · exact hplaces i hi
    · exact (placeFrom_append (hpos i hi)).mpr (hrest.places i hi)
  · intro i hplace
    -- a place behind the front is one of the rest; the one right behind it has lost its lead
    rcases Nat.lt_or_ge front.length i with hi | hi
    · obtain ⟨i, rfl⟩ := Nat.exists_eq_add_of_lt hi
      obtain ⟨h, hh, hle, hle'⟩ :=
        hrest.near (i + 1) ((placeFrom_append (Nat.succ_pos i)).mp hplace)
      exact ⟨front.length + h, .inr ⟨h, hh, rfl⟩, by omega, by omega⟩
    · obtain ⟨h, hh, hle⟩ := hnear i hi hplace
      exact ⟨h, .inl hh, hle⟩

/-! ### The scan -/

lemma length_of_stands (h : stands upper name (u :: rest)) : name.length ≤ rest.length := by
  simp only [stands, Bool.and_eq_true, decide_eq_true_eq] at h
  have hlength := congrArg List.length h.2.1
  rw [List.length_map, List.length_map, List.length_take] at hlength
  omega

lemma blanks_self : Blanks (tokens n ∅) text text :=
  fun _ => ⟨fun ⟨_, hi, _⟩ => absurd hi (Set.notMem_empty _), fun _ => rfl⟩

lemma blanks_replicate (h : text.length = n + 1) :
    Blanks (tokens n {0}) text (List.replicate (n + 1) space) := by
  intro j
  constructor
  · rintro ⟨i, rfl, -, hle⟩
    rw [List.getElem?_replicate_of_lt (by omega), List.getElem?_eq_getElem (by omega)]
    rfl
  · intro hj
    have hle : n + 1 ≤ j := by
      by_contra hlt
      exact hj ⟨0, rfl, by omega, by omega⟩
    rw [List.getElem?_eq_none (by simpa using hle), List.getElem?_eq_none (by omega)]

/-- A unit in front of a token stays. -/
lemma blanks_cons (h : Blanks (tokens n {0}) text left) :
    Blanks (tokens n {1}) (u :: text) (u :: left) := by
  have hself : Blanks (tokens n ∅) [u] [u] := blanks_self
  have happend : Blanks (tokens n {1}) ([u] ++ text) ([u] ++ left) := by
    refine Blanks.append hself h ?_ ?_ rfl
    · rintro j hj
      rw [List.length_singleton] at hj
      refine iff_of_false ?_ ?_
      · rintro ⟨i, rfl, hle, -⟩
        omega
      · rintro ⟨i, hi, -⟩
        exact hi
    · intro j
      rw [List.length_singleton]
      constructor
      · rintro ⟨i, rfl, -, hle⟩
        exact ⟨0, rfl, by omega, by omega⟩
      · rintro ⟨i, rfl, -, hle⟩
        exact ⟨1, rfl, by omega, by omega⟩
  exact happend

lemma stands_of_placeFrom_zero (h : PlaceFrom upper name first text 0) :
    (first && stands upper name text) = true := by
  obtain ⟨⟨-, hfirst⟩ | ⟨j, hj, -⟩, hstands⟩ := h
  · simpa [hfirst] using hstands
  · omega

lemma stands_of_placeFrom_one (h : PlaceFrom upper name first (u :: rest) 1) :
    (isLead u && stands upper name rest) = true := by
  obtain ⟨⟨hzero, -⟩ | ⟨j, hj, v, hv, hlead⟩, hstands⟩ := h
  · omega
  · obtain rfl : j = 0 := by omega
    obtain rfl : u = v := by simpa using hv
    simpa [hlead] using hstands

lemma Scanned.here (h : Scanned upper name false (rest.drop name.length) left hits)
    (hhere : (first && stands upper name (u :: rest)) = true) :
    Scanned upper name first (u :: rest) (List.replicate (name.length + 1) space ++ left)
      ({0} ∪ behind (name.length + 1) hits) := by
  have hstands := Bool.and_eq_true_iff.mp hhere
  have hlength : (u :: rest.take name.length).length = name.length + 1 := by
    rw [List.length_cons, List.length_take_of_le (length_of_stands hstands.2)]
  have hsplit : (u :: rest.take name.length) ++ rest.drop name.length = u :: rest := by
    rw [List.cons_append, List.take_append_drop]
  rw [← hsplit, ← hlength]
  refine h.append (hlength ▸ blanks_replicate hlength) (by simp) ?_ ?_ ?_
  · rintro i rfl
    omega
  · rintro i rfl
    rw [hsplit]
    exact ⟨.inl ⟨rfl, hstands.1⟩, hstands.2⟩
  · exact fun i hi _ => ⟨0, rfl, by omega, by omega⟩

lemma Scanned.next (h : Scanned upper name false (rest.drop (name.length + 1)) left hits)
    (hhere : ¬ (first && stands upper name (u :: rest)) = true)
    (hnext : (isLead u && stands upper name rest) = true) :
    Scanned upper name first (u :: rest) (u :: (List.replicate (name.length + 1) space ++ left))
      ({1} ∪ behind (name.length + 2) hits) := by
  have hstands := Bool.and_eq_true_iff.mp hnext
  have hlength : (rest.take (name.length + 1)).length = name.length + 1 := by
    cases rest with
    | nil => simp [stands] at hstands
    | cons v rest =>
      rw [List.take_succ_cons, List.length_cons,
        List.length_take_of_le (length_of_stands hstands.2)]
  have hlength' : (u :: rest.take (name.length + 1)).length = name.length + 2 := by
    rw [List.length_cons, hlength]
  have hsplit : (u :: rest.take (name.length + 1)) ++ rest.drop (name.length + 1) = u :: rest := by
    rw [List.cons_append, List.take_append_drop]
  have hblanks : Blanks (tokens name.length {1}) (u :: rest.take (name.length + 1))
      (u :: List.replicate (name.length + 1) space) := blanks_cons (blanks_replicate hlength)
  have hscanned := @Scanned.append upper name left (u :: rest.take (name.length + 1))
    (u :: List.replicate (name.length + 1) space) (rest.drop (name.length + 1)) first {1} hits h
    hblanks (by simp [hlength])
  rw [hsplit, hlength'] at hscanned
  refine hscanned ?_ ?_ ?_
  · rintro i rfl
    omega
  · rintro i rfl
    exact ⟨.inr ⟨0, rfl, u, rfl, hstands.1⟩, hstands.2⟩
  · intro i hi hplace
    have hpos : i ≠ 0 := by
      rintro rfl
      exact hhere (stands_of_placeFrom_zero hplace)
    exact ⟨1, rfl, by omega, by omega⟩

lemma Scanned.skip (h : Scanned upper name false rest left hits)
    (hhere : ¬ (first && stands upper name (u :: rest)) = true)
    (hnext : ¬ (isLead u && stands upper name rest) = true) :
    Scanned upper name first (u :: rest) (u :: left) (∅ ∪ behind 1 hits) := by
  have hself : Blanks (tokens name.length ∅) [u] [u] := blanks_self
  refine @Scanned.append _ _ _ [u] [u] rest first ∅ hits h hself rfl (by simp) (by simp) ?_
  intro i hi hplace
  have hsmall : i = 0 ∨ i = 1 := by
    rw [List.length_singleton] at hi
    omega
  rcases hsmall with rfl | rfl
  · exact absurd (stands_of_placeFrom_zero hplace) hhere
  · exact absurd (stands_of_placeFrom_one hplace) hnext

lemma scanned_nil : Scanned upper name first [] [] ∅ := by
  refine ⟨blanks_self, fun i hi => absurd hi (Set.notMem_empty i), ?_⟩
  rintro i ⟨-, hstands⟩
  simp [stands] at hstands

/-- **The scan** hits places only, and every place but those behind which the scan goes on. -/
theorem replaceAll_spec (fuel : ℕ) (hfuel : text.length ≤ fuel) :
    ∃ hits, Scanned upper name first text (replaceAll upper name fuel first text).2 hits ∧
      ((replaceAll upper name fuel first text).1 ↔ hits.Nonempty) := by
  induction fuel generalizing first text with
  | zero =>
    obtain rfl := List.length_eq_zero_iff.mp (Nat.le_zero.mp hfuel)
    exact ⟨∅, scanned_nil, by simp [replaceAll]⟩
  | succ fuel ih =>
    cases text with
    | nil => exact ⟨∅, scanned_nil, by simp [replaceAll]⟩
    | cons u rest =>
      have hrest : rest.length ≤ fuel := Nat.le_of_succ_le_succ hfuel
      have hdrop (k : ℕ) : (rest.drop k).length ≤ fuel :=
        (List.drop_suffix k rest).length_le.trans hrest
      rw [replaceAll]
      by_cases hhere : (first && stands upper name (u :: rest)) = true
      · obtain ⟨hits, hscanned, -⟩ := @ih (rest.drop name.length) false (hdrop _)
        rw [if_pos hhere]
        exact ⟨_, hscanned.here hhere, iff_of_true rfl ⟨0, Set.mem_union_left _ rfl⟩⟩
      rw [if_neg hhere]
      by_cases hnext : (isLead u && stands upper name rest) = true
      · obtain ⟨hits, hscanned, -⟩ := @ih (rest.drop (name.length + 1)) false (hdrop _)
        rw [if_pos hnext]
        exact ⟨_, hscanned.next hhere hnext, iff_of_true rfl ⟨1, Set.mem_union_left _ rfl⟩⟩
      · obtain ⟨hits, hscanned, hhit⟩ := @ih rest false hrest
        rw [if_neg hnext]
        refine ⟨_, hscanned.skip hhere hnext, hhit.trans ?_⟩
        rw [Set.empty_union]
        exact ⟨fun ⟨i, hi⟩ => ⟨1 + i, i, hi, rfl⟩, fun ⟨_, i, hi, _⟩ => ⟨i, hi⟩⟩

lemma Blanks.trans {covered covered' : Set ℕ} {left' : Text} (h : Blanks covered text left)
    (h' : Blanks covered' left left') : Blanks (covered ∪ covered') text left' := by
  intro j
  constructor
  · rintro (hj | hj)
    · by_cases hj' : j ∈ covered'
      · rw [(h' j).1 hj', (h j).1 hj, Option.map_map]
        rfl
      · rw [(h' j).2 hj', (h j).1 hj]
    · rw [(h' j).1 hj]
      by_cases hc : j ∈ covered
      · rw [(h j).1 hc, Option.map_map]
        rfl
      · rw [(h j).2 hc]
  · intro hj
    rw [Set.mem_union, not_or] at hj
    rw [(h' j).2 hj.2, (h j).2 hj.1]

/-- Nothing that is blanked is an `@`. -/
lemma Blanks.not_mem {covered : Set ℕ} (h : Blanks covered text left)
    (hat : left[i]? = some atSign) : i ∉ covered := by
  intro hi
  rw [(h i).1 hi] at hat
  cases htext : text[i]? with
  | none => simp [htext] at hat
  | some u =>
    rw [htext, Option.map_some] at hat
    exact absurd (Option.some.inj hat : space = atSign) (by decide)

lemma PlaceFrom.at (h : PlaceFrom upper name first text i) : text[i]? = some atSign :=
  (stands_drop.1 h.2).1

/-- A name stands where it stood if no unit of it is blanked. -/
lemma Blanks.place {covered : Set ℕ} (h : Blanks covered text left)
    (hplace : Place upper name text i) (hclear : ∀ j, i ≤ j → j ≤ i + name.length → j ∉ covered) :
    Place upper name left i := by
  obtain ⟨hstart, hstands⟩ := hplace
  obtain ⟨hat, hname, hbehind⟩ := stands_drop.1 hstands
  refine ⟨hstart.imp_right ?_, stands_drop.2 ⟨?_, ?_, ?_⟩⟩
  · rintro ⟨j, rfl, u, hu, hlead⟩
    by_cases hj : j ∈ covered
    · refine ⟨j, rfl, space, ?_, by decide⟩
      rw [Option.mem_def, (h j).1 hj, hu]
      rfl
    · exact ⟨j, rfl, u, (h j).2 hj ▸ hu, hlead⟩
  · rw [(h i).2 (hclear i le_rfl (by omega)), hat]
  · intro k hk
    rw [(h _).2 (hclear (i + 1 + k) (by omega) (by omega)), hname k hk]
  · intro u hu
    by_cases hj : i + 1 + name.length ∈ covered
    · rw [(h _).1 hj] at hu
      obtain ⟨-, -, rfl⟩ := Option.map_eq_some_iff.mp hu
      decide
    · rw [(h _).2 hj] at hu
      exact hbehind u hu

/-! ### The rounds -/

section Rounds

variable {α : Type} {nameOf : α → Text} {candidates : List α} {c d : α}
  {state : Text × List α}

/-- **A round** finds the candidate if its name stands in the remaining text. -/
theorem tryCandidate_spec (hname : nameOf c ≠ []) : ∃ hits,
    Scanned upper (nameOf c) true state.1 (tryCandidate upper nameOf state c).1 hits ∧
      ∀ d, d ∈ (tryCandidate upper nameOf state c).2 ↔ d ∈ state.2 ∨ d = c ∧ hits.Nonempty := by
  obtain ⟨hits, hscanned, hhit⟩ :=
    @replaceAll_spec upper (nameOf c) state.1 true state.1.length le_rfl
  have hlength : (nameOf c).length ≠ 0 := fun h => hname (List.length_eq_zero_iff.mp h)
  rw [tryCandidate, if_neg hlength]
  refine ⟨hits, hscanned, fun d => ?_⟩
  rw [← hhit]
  by_cases hany : (replaceAll upper (nameOf c) state.1.length true state.1).1
  · simp [hany, or_comm]
  · simp [hany]

lemma tryCandidate_of_empty (hname : nameOf c = []) : tryCandidate upper nameOf state c = state :=
  if_pos (List.length_eq_zero_iff.mpr hname)

lemma perm_byLength : byLength nameOf candidates ~ candidates := List.perm_insertionSort ..

lemma pairwise_byLength :
    (byLength nameOf candidates).Pairwise fun a b => (nameOf b).length ≤ (nameOf a).length := by
  have : Std.Total fun a b : α => (nameOf b).length ≤ (nameOf a).length :=
    ⟨fun a b => Nat.le_total _ _⟩
  have : IsTrans α fun a b => (nameOf b).length ≤ (nameOf a).length :=
    ⟨fun a b c hab hbc => hbc.trans hab⟩
  exact List.pairwise_insertionSort _ _

lemma mem_mentionedAgents [DecidableEq α] : c ∈ mentionedAgents upper nameOf text candidates ↔
    c ∈ candidates ∧
      c ∈ ((byLength nameOf candidates).foldl (tryCandidate upper nameOf) (text, [])).2 := by
  simp [mentionedAgents]

end Rounds

end Workbench.Web.Mentions
