import Workbench.Lib.OrderedMap

/-!
Grouping a list by a key.

The groups stand in a map under their keys, in the order in which the keys are first met. An
element opens the group of its key or is added to the one that is there.
-/

namespace Workbench.Lib.Grouping

open List

variable {α β κ ν : Type*} [DecidableEq κ]

/-- The map after one more element. -/
def put (key : α → κ) (add : Option ν → α → ν) (m : OrderedMap κ ν) (a : α) : OrderedMap κ ν :=
  m.set (key a) (add (m.get (key a)) a)

def collect (key : α → κ) (add : Option ν → α → ν) (m : OrderedMap κ ν) (as : List α) :
    OrderedMap κ ν :=
  as.foldl (put key add) m

variable {key : α → κ} {add : Option ν → α → ν} {m : OrderedMap κ ν} {as : List α} {k : κ} {v : ν}

/-- **The group of a key** is made of the elements with that key, in their order. -/
theorem get_collect : (collect key add m as).get k =
    (as.filter (key · = k)).foldl (fun group a => some (add group a)) (m.get k) := by
  induction as generalizing m with
  | nil => rfl
  | cons a as ih =>
    have hstep : (put key add m a).get k =
        if key a = k then some (add (m.get k) a) else m.get k := by
      rw [put, OrderedMap.get_set]
      by_cases h : key a = k
      · rw [if_pos h.symm, if_pos h, h]
      · rw [if_neg (Ne.symm h), if_neg h]
    rw [collect, List.foldl_cons, ← collect, ih, hstep]
    by_cases h : key a = k <;> simp [h]

/-- **The groups stand in the order** in which their keys are first met: a search through the keys
of the map finds what a search through the keys of the elements finds. -/
theorem find?_keys_collect (p : κ → Bool) :
    (collect key add m as).keys.find? p = (m.keys ++ as.map key).find? p := by
  induction as generalizing m with
  | nil => simp [collect]
  | cons a as ih =>
    have hstep : (put key add m a).keys.find? p = (m.keys ++ [key a]).find? p := by
      by_cases h : key a ∈ m.keys
      · have hkeys : (put key add m a).keys = m.keys := OrderedMap.keys_set_of_mem h
        rw [hkeys, List.find?_append]
        cases hfind : m.keys.find? p with
        | some k => rfl
        | none =>
          have hno := List.find?_eq_none.mp hfind (key a) h
          simp [hno]
      · have hentries := OrderedMap.set_of_not_mem (v := add (m.get (key a)) a) h
        have hkeys : (put key add m a).keys = m.keys ++ [key a] := by
          rw [put, OrderedMap.keys, hentries, List.map_append]
          rfl
        rw [hkeys]
    rw [collect, List.foldl_cons, ← collect, ih, List.find?_append, hstep, ← List.find?_append,
      List.map_cons, List.append_assoc, List.singleton_append]

/-- What is set in a map replaces at most what was there. -/
lemma values_set : ∃ rest, m.values ~ (m.get k).toList ++ rest ∧
    (m.set k v).values ~ v :: rest := by
  obtain ⟨es, hn⟩ := m
  simp only [OrderedMap.values, OrderedMap.get, OrderedMap.set]
  clear hn
  induction es with
  | nil => exact ⟨[], by simp [OrderedMap.lookup], by simp [OrderedMap.insert]⟩
  | cons e es ih =>
    obtain ⟨j, w⟩ := e
    by_cases h : j = k
    · exact ⟨es.map Prod.snd, by simp [OrderedMap.lookup, h], by simp [OrderedMap.insert, h]⟩
    · obtain ⟨rest, hold, hnew⟩ := ih
      refine ⟨w :: rest, ?_, ?_⟩
      · rw [List.map_cons, OrderedMap.lookup, if_neg h]
        exact (hold.cons w).trans List.perm_middle.symm
      · rw [OrderedMap.insert, if_neg h, List.map_cons]
        exact (hnew.cons w).trans (.swap v w rest)

/-- **Nothing is lost and nothing is doubled** when each element adds to its group what it holds. -/
theorem values_collect {content : ν → List β} {held : α → List β}
    (hadd : ∀ group a, content (add group a) ~ group.toList.flatMap content ++ held a) :
    (collect key add m as).values.flatMap content ~
      m.values.flatMap content ++ as.flatMap held := by
  induction as generalizing m with
  | nil => simp [collect]
  | cons a as ih =>
    have hstep : (put key add m a).values.flatMap content ~
        m.values.flatMap content ++ held a := by
      obtain ⟨rest, hold, hnew⟩ :=
        values_set (m := m) (k := key a) (v := add (m.get (key a)) a)
      calc (put key add m a).values.flatMap content
        _ ~ (add (m.get (key a)) a :: rest).flatMap content := hnew.flatMap_right content
        _ = content (add (m.get (key a)) a) ++ rest.flatMap content := List.flatMap_cons
        _ ~ (m.get (key a)).toList.flatMap content ++ held a ++ rest.flatMap content :=
          (hadd _ a).append_right _
        _ ~ (m.get (key a)).toList.flatMap content ++ rest.flatMap content ++ held a := by
          rw [List.append_assoc, List.append_assoc]
          exact List.perm_append_comm.append_left _
        _ ~ m.values.flatMap content ++ held a := by
          rw [← List.flatMap_append]
          exact (hold.symm.flatMap_right content).append_right _
    rw [collect, List.foldl_cons, ← collect, List.flatMap_cons, ← List.append_assoc]
    exact ih.trans (hstep.append_right _)

/-- What a list is grouped into holds what its elements hold. -/
lemma values_collect_empty {content : ν → List β} {held : α → List β}
    (hadd : ∀ group a, content (add group a) ~ group.toList.flatMap content ++ held a) :
    (collect key add .empty as).values.flatMap content ~ as.flatMap held :=
  values_collect hadd

end Workbench.Lib.Grouping
