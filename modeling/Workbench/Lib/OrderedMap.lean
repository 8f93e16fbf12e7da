import Mathlib.Data.List.Nodup
import Mathlib.Tactic.Lemma

/-!
Finite maps that remember the order in which their keys were first set.

Setting a key that is present replaces its value in place; a new key goes to the end. The
keys are distinct, which the structure carries as a field.
-/

namespace Workbench.Lib

/-- A map from keys to values in insertion order. -/
@[ext] structure OrderedMap (κ ν : Type*) where
  entries : List (κ × ν)
  nodup : (entries.map Prod.fst).Nodup

namespace OrderedMap

variable {κ ν : Type*} [DecidableEq κ]

def lookup (k : κ) : List (κ × ν) → Option ν
  | [] => none
  | (j, v) :: es => if j = k then some v else lookup k es

def insert (k : κ) (v : ν) : List (κ × ν) → List (κ × ν)
  | [] => [(k, v)]
  | (j, w) :: es => if j = k then (j, v) :: es else (j, w) :: insert k v es

lemma lookup_nil (k : κ) : lookup k ([] : List (κ × ν)) = none := rfl

lemma lookup_cons (k j : κ) (v : ν) (es : List (κ × ν)) :
    lookup k ((j, v) :: es) = if j = k then some v else lookup k es := rfl

lemma insert_nil (k : κ) (v : ν) : insert k v [] = [(k, v)] := rfl

lemma insert_cons (k j : κ) (v w : ν) (es : List (κ × ν)) :
    insert k v ((j, w) :: es) = if j = k then (j, v) :: es else (j, w) :: insert k v es := rfl

lemma mem_keys_insert {k j : κ} {v : ν} {es : List (κ × ν)} :
    j ∈ (insert k v es).map Prod.fst ↔ j = k ∨ j ∈ es.map Prod.fst := by
  induction es with
  | nil => simp [insert_nil]
  | cons e es ih =>
    obtain ⟨i, w⟩ := e
    by_cases h : i = k
    · subst h; simp [insert_cons]
    · simp only [insert_cons, if_neg h, List.map_cons, List.mem_cons, ih]
      tauto

lemma nodup_insert {k : κ} {v : ν} {es : List (κ × ν)} (h : (es.map Prod.fst).Nodup) :
    ((insert k v es).map Prod.fst).Nodup := by
  induction es with
  | nil => simp [insert_nil]
  | cons e es ih =>
    obtain ⟨i, w⟩ := e
    simp only [List.map_cons, List.nodup_cons] at h
    by_cases hik : i = k
    · subst hik; simpa [insert_cons] using h
    · simp only [insert_cons, if_neg hik, List.map_cons, List.nodup_cons, mem_keys_insert, not_or]
      exact ⟨⟨hik, h.1⟩, ih h.2⟩

lemma lookup_insert (k j : κ) (v : ν) (es : List (κ × ν)) :
    lookup j (insert k v es) = if j = k then some v else lookup j es := by
  induction es with
  | nil => simp [insert_nil, lookup_cons, lookup_nil, eq_comm]
  | cons e es ih =>
    obtain ⟨i, w⟩ := e
    by_cases hik : i = k
    · subst hik
      by_cases h : j = i
      · simp [insert_cons, lookup_cons, h]
      · simp [insert_cons, lookup_cons, h, Ne.symm h]
    · simp only [insert_cons, if_neg hik, lookup_cons, ih]
      by_cases hij : i = j
      · subst hij; simp [hik]
      · simp [hij]

lemma lookup_filter (p : κ → Bool) (j : κ) (es : List (κ × ν)) :
    lookup j (es.filter fun e => p e.1) = if p j then lookup j es else none := by
  induction es with
  | nil => simp [lookup_nil]
  | cons e es ih =>
    obtain ⟨i, w⟩ := e
    by_cases hi : p i
    · simp only [List.filter_cons, hi, if_true, lookup_cons, ih]
      by_cases hij : i = j
      · subst hij; simp [hi]
      · simp [hij]
    · have hf : ((i, w) :: es).filter (fun e => p e.1) = es.filter fun e => p e.1 :=
        List.filter_cons_of_neg hi
      rw [hf, ih, lookup_cons]
      by_cases hij : i = j
      · subst hij; simp [hi]
      · simp [hij]

lemma lookup_eq_none {k : κ} {es : List (κ × ν)} :
    lookup k es = none ↔ k ∉ es.map Prod.fst := by
  induction es with
  | nil => simp [lookup_nil]
  | cons e es ih =>
    obtain ⟨i, w⟩ := e
    by_cases h : i = k
    · subst h; simp [lookup_cons]
    · simp [lookup_cons, h, ih, Ne.symm h]

lemma lookup_of_mem {k : κ} {v : ν} {es : List (κ × ν)} (hn : (es.map Prod.fst).Nodup)
    (h : (k, v) ∈ es) : lookup k es = some v := by
  induction es with
  | nil => simp at h
  | cons e es ih =>
    obtain ⟨i, w⟩ := e
    simp only [List.map_cons, List.nodup_cons] at hn
    rcases List.mem_cons.mp h with he | he
    · obtain ⟨rfl, rfl⟩ := Prod.mk.inj he
      simp [lookup_cons]
    · have : i ≠ k := by
        rintro rfl
        exact hn.1 (List.mem_map.mpr ⟨_, he, rfl⟩)
      simp [lookup_cons, this, ih hn.2 he]

lemma mem_of_lookup {k : κ} {v : ν} {es : List (κ × ν)} (h : lookup k es = some v) :
    (k, v) ∈ es := by
  induction es with
  | nil => simp [lookup_nil] at h
  | cons e es ih =>
    obtain ⟨i, w⟩ := e
    by_cases hik : i = k
    · subst hik
      obtain rfl : w = v := by simpa [lookup_cons] using h
      simp
    · exact List.mem_cons_of_mem _ (ih (by simpa [lookup_cons, hik] using h))

/-! ### The operations on maps -/

def empty : OrderedMap κ ν := ⟨[], List.nodup_nil⟩

def get (m : OrderedMap κ ν) (k : κ) : Option ν := lookup k m.entries

def has (m : OrderedMap κ ν) (k : κ) : Bool := (m.get k).isSome

def set (m : OrderedMap κ ν) (k : κ) (v : ν) : OrderedMap κ ν :=
  ⟨insert k v m.entries, nodup_insert m.nodup⟩

/-- The map without the keys that fail the test. -/
def keep (m : OrderedMap κ ν) (p : κ → Bool) : OrderedMap κ ν :=
  ⟨m.entries.filter fun e => p e.1, m.nodup.sublist (List.filter_sublist.map _)⟩

def keys (m : OrderedMap κ ν) : List κ := m.entries.map Prod.fst

def values (m : OrderedMap κ ν) : List ν := m.entries.map Prod.snd

variable {m : OrderedMap κ ν} {k j : κ} {v : ν}

@[simp] lemma get_empty : (empty : OrderedMap κ ν).get k = none := rfl

@[grind =] lemma get_set : (m.set k v).get j = if j = k then some v else m.get j :=
  lookup_insert k j v m.entries

@[simp] lemma get_set_self : (m.set k v).get k = some v := by simp [get_set]

@[grind =] lemma get_keep (p : κ → Bool) :
    (m.keep p).get k = if p k then m.get k else none :=
  lookup_filter p k m.entries

lemma mem_keys : k ∈ m.keys ↔ ∃ v, m.get k = some v := by
  rw [← Option.isSome_iff_exists, ← Option.ne_none_iff_isSome, ne_eq, get, lookup_eq_none,
    not_not, keys]

lemma get_eq_some : m.get k = some v ↔ (k, v) ∈ m.entries :=
  ⟨mem_of_lookup, lookup_of_mem m.nodup⟩

lemma has_iff : m.has k ↔ k ∈ m.keys := by
  rw [has, Option.isSome_iff_exists, mem_keys]

lemma mem_values : v ∈ m.values ↔ ∃ k, m.get k = some v := by
  simp only [values, List.mem_map, get_eq_some]
  constructor
  · rintro ⟨⟨k, v⟩, he, rfl⟩
    exact ⟨k, he⟩
  · rintro ⟨k, he⟩
    exact ⟨(k, v), he, rfl⟩

lemma mem_values_set {w : ν} (h : w ∈ (m.set k v).values) : w ∈ m.values ∨ w = v := by
  obtain ⟨j, hj⟩ := mem_values.1 h
  rw [get_set] at hj
  split at hj
  · exact .inr (Option.some.inj hj).symm
  · exact .inl (mem_values.2 ⟨j, hj⟩)

lemma mem_values_keep {q : κ → Bool} (h : v ∈ (m.keep q).values) : v ∈ m.values := by
  obtain ⟨j, hj⟩ := mem_values.1 h
  rw [get_keep] at hj
  split at hj
  · exact mem_values.2 ⟨j, hj⟩
  · simp at hj

lemma set_of_not_mem (h : k ∉ m.keys) : (m.set k v).entries = m.entries ++ [(k, v)] := by
  obtain ⟨es, hn⟩ := m
  simp only [keys] at h
  simp only [set]
  clear hn
  induction es with
  | nil => rfl
  | cons e es ih =>
    obtain ⟨i, w⟩ := e
    simp only [List.map_cons, List.mem_cons, not_or] at h
    simp [insert_cons, Ne.symm h.1, ih h.2]

lemma keys_set_of_mem (h : k ∈ m.keys) : (m.set k v).keys = m.keys := by
  obtain ⟨es, hn⟩ := m
  simp only [keys] at h
  simp only [set, keys]
  clear hn
  induction es with
  | nil => simp at h
  | cons e es ih =>
    obtain ⟨i, w⟩ := e
    by_cases hik : i = k
    · simp [insert_cons, hik]
    · rw [List.map_cons, List.mem_cons] at h
      simp [insert_cons, hik, ih (h.resolve_left (Ne.symm hik))]

/-- The first map with every entry of the second set in it. -/
def merge (m sent : OrderedMap κ ν) : OrderedMap κ ν :=
  sent.entries.foldl (fun m e => m.set e.1 e.2) m

lemma get_foldl_set {es : List (κ × ν)} (hn : (es.map Prod.fst).Nodup) :
    (es.foldl (fun m e => m.set e.1 e.2) m).get k = (lookup k es <|> m.get k) := by
  induction es generalizing m with
  | nil => simp [lookup_nil]
  | cons e es ih =>
    obtain ⟨i, w⟩ := e
    rw [List.map_cons, List.nodup_cons] at hn
    rw [List.foldl_cons, ih hn.2, get_set, lookup_cons]
    by_cases hik : i = k
    · subst hik
      simp [lookup_eq_none.2 hn.1]
    · simp [hik, Ne.symm hik]

lemma get_merge {sent : OrderedMap κ ν} : (m.merge sent).get k = (sent.get k <|> m.get k) :=
  get_foldl_set sent.nodup

end OrderedMap

end Workbench.Lib
