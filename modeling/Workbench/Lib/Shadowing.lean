import Workbench.Lib.OrderedMap

/-!
Rows under keys, where the first row under a key stays.

The rows come layer by layer, and a row hides the rows under its key in the layers behind it.
-/

namespace Workbench.Lib.Shadowing

variable {α κ : Type*} [DecidableEq κ] {key : α → κ} {m : OrderedMap κ α} {rows : List α} {a : α}
  {k : κ}

def claim (key : α → κ) (m : OrderedMap κ α) (a : α) : OrderedMap κ α :=
  if m.has (key a) then m else m.set (key a) a

/-- The map with the rows that are the first under their keys. -/
def claims (key : α → κ) (m : OrderedMap κ α) (rows : List α) : OrderedMap κ α :=
  rows.foldl (claim key) m

lemma claims_append {more : List α} :
    claims key m (rows ++ more) = claims key (claims key m rows) more := List.foldl_append

lemma get_claim : (claim key m a).get k = (m.get k <|> if key a = k then some a else none) := by
  unfold claim
  split_ifs with hhas hk hk
  · obtain ⟨b, hb⟩ := Option.isSome_iff_exists.mp hhas
    rw [hk] at hb
    rw [hb]
    rfl
  · simp
  · have hnone : m.get k = none := by
      rw [hk] at hhas
      simpa [OrderedMap.has] using hhas
    rw [hnone, ← hk, OrderedMap.get_set_self]
    rfl
  · simp [OrderedMap.get_set, Ne.symm hk]

/-- **A key holds the first row under it.** -/
theorem get_claims : (claims key m rows).get k = (m.get k <|> rows.find? (key · = k)) := by
  induction rows generalizing m with
  | nil => simp [claims]
  | cons a rows ih =>
    rw [claims, List.foldl_cons, ← claims, ih, get_claim]
    by_cases hk : key a = k <;> cases m.get k <;> simp [hk]

lemma get_claims_empty : (claims key .empty rows).get k = rows.find? (key · = k) := by
  rw [get_claims]
  rfl

/-- Every row stands under its own key. -/
def Keyed (key : α → κ) (m : OrderedMap κ α) : Prop := ∀ k a, m.get k = some a → key a = k

lemma keyed_empty : Keyed key (.empty : OrderedMap κ α) := nofun

lemma Keyed.set (h : Keyed key m) (hkey : key a = k) : Keyed key (m.set k a) := by
  intro j b hget
  rw [OrderedMap.get_set] at hget
  split_ifs at hget with hj
  · rw [← Option.some.inj hget, hkey, hj]
  · exact h j b hget

lemma Keyed.claims (h : Keyed key m) : Keyed key (claims key m rows) := by
  intro k a hget
  rw [get_claims] at hget
  cases hm : m.get k with
  | some b =>
    obtain rfl : b = a := by simpa [hm] using hget
    exact h k b hm
  | none =>
    have hfind : rows.find? (key · = k) = some a := by simpa [hm] using hget
    simpa using List.find?_some hfind

lemma keyed_claims : Keyed key (claims key .empty rows) := keyed_empty.claims

lemma Keyed.keys_eq (h : Keyed key m) : m.values.map key = m.keys := by
  unfold OrderedMap.values OrderedMap.keys
  rw [List.map_map]
  refine List.map_congr_left fun entry hentry => ?_
  exact h entry.1 entry.2 (OrderedMap.get_eq_some.2 hentry)

lemma mem_claims : a ∈ (claims key .empty rows).values ↔ rows.find? (key · = key a) = some a := by
  rw [OrderedMap.mem_values]
  constructor
  · rintro ⟨k, hk⟩
    obtain rfl : key a = k := keyed_claims k a hk
    rwa [get_claims_empty] at hk
  · intro h
    exact ⟨key a, get_claims_empty.trans h⟩

omit [DecidableEq κ] in
/-- A key that a row need not have is that of one row only. -/
lemma eq_of_nodup_filterMap {key : α → Option κ} {b : α} (hnodup : (rows.filterMap key).Nodup)
    (ha : a ∈ rows) (hb : b ∈ rows) (hka : key a = some k) (hkb : key b = some k) : a = b := by
  induction rows with
  | nil => cases ha
  | cons first rows ih =>
    rcases List.mem_cons.mp ha with rfl | hlater <;> rcases List.mem_cons.mp hb with rfl | hlater'
    · rfl
    · rw [List.filterMap_cons_some hka, List.nodup_cons] at hnodup
      exact absurd (List.mem_filterMap.mpr ⟨b, hlater', hkb⟩) hnodup.1
    · rw [List.filterMap_cons_some hkb, List.nodup_cons] at hnodup
      exact absurd (List.mem_filterMap.mpr ⟨a, hlater, hka⟩) hnodup.1
    · exact ih (hnodup.sublist ((List.sublist_cons_self first rows).filterMap _)) hlater hlater'

lemma nodup_claims : ((claims key .empty rows).values.map key).Nodup := by
  rw [keyed_claims.keys_eq]
  exact (claims key .empty rows).nodup

/-- A map from rows, where a later row replaces an earlier one. -/
def mapOf {ν : Type*} (key : α → κ) (value : α → ν) (rows : List α) : OrderedMap κ ν :=
  (rows.map fun row => (key row, value row)).foldl (fun m e => m.set e.1 e.2) .empty

/-- No key is lost. -/
lemma mem_keys_claims :
    k ∈ (claims key .empty rows).values.map key ↔ k ∈ rows.map key := by
  rw [keyed_claims.keys_eq, OrderedMap.mem_keys]
  simp only [get_claims_empty]
  constructor
  · rintro ⟨a, hfind⟩
    have hkey : key a = k := by simpa using List.find?_some hfind
    exact hkey ▸ List.mem_map_of_mem (List.mem_of_find?_eq_some hfind)
  · intro hmem
    obtain ⟨a, ha, rfl⟩ := List.mem_map.mp hmem
    exact Option.isSome_iff_exists.mp (List.find?_isSome.mpr ⟨a, ha, by simp⟩)

lemma get_mapOf {ν : Type*} {value : α → ν} (hnodup : (rows.map key).Nodup) {v : ν} :
    (mapOf key value rows).get k = some v ↔ ∃ a ∈ rows, key a = k ∧ value a = v := by
  have hkeys : ((rows.map fun row => (key row, value row)).map Prod.fst).Nodup := by
    rwa [List.map_map]
  rw [mapOf, OrderedMap.get_foldl_set hkeys, OrderedMap.get_empty]
  constructor
  · intro h
    have hmem := OrderedMap.mem_of_lookup (k := k) (v := v) (by simpa using h)
    simpa using hmem
  · rintro ⟨a, ha, rfl, rfl⟩
    have hmem : (key a, value a) ∈ rows.map fun row => (key row, value row) :=
      List.mem_map_of_mem ha
    rw [OrderedMap.lookup_of_mem hkeys hmem]
    rfl

/-- A map from the first rows that pass a test has a key where the first row under it passes. -/
lemma get_mapOf_claims {p : α → Bool} :
    (mapOf key id ((claims key .empty rows).values.filter p)).get k =
      (rows.find? (key · = k)).filter p := by
  have hnodup : (((claims key .empty rows).values.filter p).map key).Nodup :=
    nodup_claims.sublist (List.filter_sublist.map key)
  ext a
  rw [get_mapOf hnodup, Option.filter_eq_some_iff]
  constructor
  · rintro ⟨b, hb, rfl, rfl⟩
    obtain ⟨hclaims, hp⟩ := List.mem_filter.mp hb
    exact ⟨mem_claims.1 hclaims, hp⟩
  · rintro ⟨hfind, hp⟩
    have hkey : key a = k := by simpa using List.find?_some hfind
    exact ⟨a, List.mem_filter.mpr ⟨mem_claims.2 (hkey ▸ hfind), hp⟩, hkey, rfl⟩

/-- Where no two rows have one key, a row is found by its own. -/
lemma find?_of_nodup (hnodup : (rows.map key).Nodup) (ha : a ∈ rows) :
    rows.find? (key · = key a) = some a := by
  induction rows with
  | nil => cases ha
  | cons b rows ih =>
    rw [List.map_cons, List.nodup_cons] at hnodup
    by_cases hkey : key b = key a
    · rcases List.mem_cons.mp ha with rfl | ha
      · simp
      · exact absurd (hkey ▸ List.mem_map_of_mem ha) hnodup.1
    · rw [List.find?_cons_of_neg (by simpa using hkey)]
      rcases List.mem_cons.mp ha with rfl | ha
      · exact absurd rfl hkey
      · exact ih hnodup.2 ha

/-- The map with rows set in it one after the other. -/
def puts (key : α → κ) (m : OrderedMap κ α) (rows : List α) : OrderedMap κ α :=
  rows.foldl (fun m a => m.set (key a) a) m

/-- A key holds the last row that was set under it. -/
lemma get_puts : (puts key m rows).get k =
    (rows.reverse.find? (key · = k) <|> m.get k) := by
  induction rows generalizing m with
  | nil => rfl
  | cons a rows ih =>
    rw [puts, List.foldl_cons, ← puts, ih, List.reverse_cons, List.find?_append,
      OrderedMap.get_set]
    by_cases hk : key a = k
    · cases rows.reverse.find? (key · = k) <;> simp [hk]
    · cases rows.reverse.find? (key · = k) <;> simp [hk, Ne.symm hk]

lemma Keyed.puts (h : Keyed key m) : Keyed key (puts key m rows) := by
  induction rows generalizing m with
  | nil => exact h
  | cons a rows ih => exact ih (h.set rfl)

/-- Rows with new keys of their own are added at the end. -/
lemma values_puts (hnodup : (rows.map key).Nodup) (hnew : ∀ a ∈ rows, key a ∉ m.keys) :
    (puts key m rows).values = m.values ++ rows := by
  induction rows generalizing m with
  | nil => simp [puts]
  | cons a rows ih =>
    rw [List.map_cons, List.nodup_cons] at hnodup
    have hentries := OrderedMap.set_of_not_mem (v := a) (hnew a List.mem_cons_self)
    have hvalues : (m.set (key a) a).values = m.values ++ [a] := by
      rw [OrderedMap.values, hentries, List.map_append]
      rfl
    rw [puts, List.foldl_cons, ← puts, ih hnodup.2, hvalues, List.append_assoc,
      List.singleton_append]
    intro b hb hkey
    rcases OrderedMap.mem_keys_insert.1 hkey with hkey | hkey
    · exact hnodup.1 (hkey ▸ List.mem_map_of_mem hb)
    · exact hnew b (List.mem_cons_of_mem _ hb) hkey

lemma mem_of_get_claims (h : (claims key m rows).get k = some a) : m.get k = some a ∨ a ∈ rows := by
  rw [get_claims] at h
  cases hm : m.get k with
  | some b => exact .inl (by simpa [hm] using h)
  | none => exact .inr (List.mem_of_find?_eq_some (by simpa [hm] using h))

lemma mem_of_get_puts (h : (puts key m rows).get k = some a) : a ∈ rows ∨ m.get k = some a := by
  rw [get_puts] at h
  cases hfind : rows.reverse.find? (key · = k) with
  | some b =>
    obtain rfl : b = a := by simpa [hfind] using h
    exact .inl (List.mem_reverse.mp (List.mem_of_find?_eq_some hfind))
  | none => exact .inr (by simpa [hfind] using h)

/-- What is set in a map is under its key, whatever is added where there is nothing. -/
lemma mem_keys_claims_puts {more : List α} (ha : a ∈ rows) :
    key a ∈ (claims key (puts key m rows) more).keys := by
  have hsome : (rows.reverse.find? (key · = key a)).isSome :=
    List.find?_isSome.mpr ⟨a, List.mem_reverse.mpr ha, by simp⟩
  obtain ⟨b, hb⟩ := Option.isSome_iff_exists.mp hsome
  rw [OrderedMap.mem_keys, get_claims, get_puts, hb]
  exact ⟨b, rfl⟩

/-- What a map holds under a key is found among its values. -/
lemma Keyed.find?_values (h : Keyed key m) : m.values.reverse.find? (key · = k) = m.get k := by
  have hnodup : (m.values.reverse.map key).Nodup := by
    rw [List.map_reverse, List.nodup_reverse, h.keys_eq]
    exact m.nodup
  cases hget : m.get k with
  | none =>
    rw [List.find?_eq_none]
    intro a ha hkey
    obtain ⟨j, hj⟩ := OrderedMap.mem_values.1 (List.mem_reverse.mp ha)
    rw [← h j a hj, of_decide_eq_true hkey, hget] at hj
    cases hj
  | some a =>
    have hmem : a ∈ m.values.reverse := List.mem_reverse.mpr (OrderedMap.mem_values.2 ⟨k, hget⟩)
    rw [← h k a hget]
    exact find?_of_nodup hnodup hmem

end Workbench.Lib.Shadowing
