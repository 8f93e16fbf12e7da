import Mathlib.Data.List.Nodup
import Mathlib.Tactic.Lemma

/-!
Tables of rows: every row has an id below a counter and a key of its own.
-/

namespace Workbench.Lib

variable {ρ κ : Type*} {id : ρ → ℕ} {key : ρ → κ} {next : ℕ} {rows : List ρ} {row other : ρ}

/-- Rows with distinct ids, all given out before `next`, and distinct keys. -/
structure Rows (id : ρ → ℕ) (key : ρ → κ) (next : ℕ) (rows : List ρ) : Prop where
  ids : (rows.map id).Nodup
  keys : (rows.map key).Nodup
  below : ∀ row ∈ rows, id row < next

namespace Rows

lemma nil : Rows id key next [] := ⟨.nil, .nil, by simp⟩

lemma mono {next' : ℕ} (h : Rows id key next rows) (hle : next ≤ next') :
    Rows id key next' rows :=
  ⟨h.ids, h.keys, fun row hrow => Nat.lt_of_lt_of_le (h.below row hrow) hle⟩

/-- A row with the next id and a key that is not taken. -/
lemma cons (h : Rows id key next rows) (hid : id row = next) (hkey : key row ∉ rows.map key) :
    Rows id key (next + 1) (row :: rows) where
  ids := by
    refine List.nodup_cons.mpr ⟨fun hmem => ?_, h.ids⟩
    obtain ⟨other, hother, heq⟩ := List.mem_map.mp hmem
    have := h.below other hother
    omega
  keys := List.nodup_cons.mpr ⟨hkey, h.keys⟩
  below := by
    intro other hother
    rcases List.mem_cons.mp hother with rfl | hother
    · omega
    · have := h.below other hother
      omega

lemma sublist {rows' : List ρ} (h : Rows id key next rows) (hs : rows'.Sublist rows) :
    Rows id key next rows' :=
  ⟨h.ids.sublist (hs.map id), h.keys.sublist (hs.map key), fun row hrow =>
    h.below row (hs.subset hrow)⟩

lemma filter (h : Rows id key next rows) (p : ρ → Bool) : Rows id key next (rows.filter p) :=
  h.sublist List.filter_sublist

/-- A change of the rows that leaves their ids and keys. -/
lemma map (h : Rows id key next rows) {f : ρ → ρ} (hid : ∀ row, id (f row) = id row)
    (hkey : ∀ row, key (f row) = key row) : Rows id key next (rows.map f) where
  ids := by
    have hids : id ∘ f = id := funext hid
    rw [List.map_map, hids]
    exact h.ids
  keys := by
    have hkeys : key ∘ f = key := funext hkey
    rw [List.map_map, hkeys]
    exact h.keys
  below := by
    intro row hrow
    obtain ⟨other, hother, rfl⟩ := List.mem_map.mp hrow
    rw [hid]
    exact h.below other hother

lemma eq_of_id (h : Rows id key next rows) (hrow : row ∈ rows) (hother : other ∈ rows)
    (heq : id row = id other) : row = other :=
  List.inj_on_of_nodup_map h.ids hrow hother heq

lemma eq_of_key (h : Rows id key next rows) (hrow : row ∈ rows) (hother : other ∈ rows)
    (heq : key row = key other) : row = other :=
  List.inj_on_of_nodup_map h.keys hrow hother heq

end Rows

/-- The row stands in a table that was seen to have one of its key: it stood there before, or it
is new. -/
inductive Ensured (key : ρ → κ) (fresh : ρ → Prop) (row : ρ) (before after : List ρ) : Prop
  | found (mem : row ∈ before) (same : after = before)
  | created (free : ∀ other ∈ before, key other ≠ key row) (new : fresh row)
    (cons : after = row :: before)

namespace Ensured

variable {fresh : ρ → Prop} {before after : List ρ}

lemma mem (h : Ensured key fresh row before after) : row ∈ after := by
  cases h with
  | found mem same => exact same ▸ mem
  | created free new cons => exact cons ▸ List.mem_cons_self

lemma subset (h : Ensured key fresh row before after) (hother : other ∈ before) :
    other ∈ after := by
  cases h with
  | found mem same => exact same ▸ hother
  | created free new cons => exact cons ▸ List.mem_cons_of_mem _ hother

/-- A row of the table is an old one or the new one. -/
lemma mem_cases (h : Ensured key fresh row before after) (hother : other ∈ after) :
    other ∈ before ∨ (other = row ∧ fresh row) := by
  cases h with
  | found mem same => exact .inl (same ▸ hother)
  | created free new cons =>
    rw [cons] at hother
    rcases List.mem_cons.mp hother with rfl | hother
    · exact .inr ⟨rfl, new⟩
    · exact .inl hother

end Ensured

end Workbench.Lib
