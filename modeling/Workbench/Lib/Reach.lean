import Mathlib.Data.List.Nodup
import Mathlib.Data.List.Perm.Subperm
import Mathlib.Logic.Relation
import Mathlib.Tactic.Lemma

/-!
Searching a graph along a queue.

The search goes from node to node until the queue is empty, keeps the nodes it saw in the order in
which it saw them, and does not go into a node that is barred. With finitely many nodes it ends,
and has seen what can be reached then.
-/

namespace Workbench.Lib.Reach

variable {α : Type*} {next : α → List α} {barred : α → Bool}
  {nodes seen queue starts : List α} {a b : α} {fuel : ℕ}

/-- The nodes seen until the queue is empty. -/
def search [DecidableEq α] (next : α → List α) (barred : α → Bool) : ℕ → List α → List α → List α
  | 0, seen, _ => seen
  | _ + 1, seen, [] => seen
  | fuel + 1, seen, a :: queue =>
    if a ∈ seen ∨ barred a then search next barred fuel seen queue
    else
      search next barred fuel (seen ++ [a])
        (queue ++ (next a).filter fun b => b ∉ seen ++ [a] ∧ ¬ barred b)

/-- Steps enough for a search through so many nodes. -/
def enough (nodes queue : List α) : ℕ := nodes.length * (nodes.length + 1) + queue.length

/-- A step to a node that is not barred. -/
def Step (next : α → List α) (barred : α → Bool) (a b : α) : Prop :=
  b ∈ next a ∧ barred b = false

def Reaches (next : α → List α) (barred : α → Bool) : α → α → Prop :=
  Relation.ReflTransGen (Step next barred)

/-- A node is a start, or is next to one that stands before it. -/
inductive Traced (next : α → List α) (starts : List α) : List α → Prop
  | nil : Traced next starts []
  | concat {seen : List α} {a : α} (before : Traced next starts seen)
      (origin : a ∈ starts ∨ ∃ b ∈ seen, a ∈ next b) : Traced next starts (seen ++ [a])

/-- The graph has no nodes but these, and a node is next to another but once. -/
structure Within (next : α → List α) (nodes : List α) : Prop where
  closed : ∀ a ∈ nodes, next a ⊆ nodes
  nodup : ∀ a, (next a).Nodup

/-- Where a search stands. -/
structure Underway (next : α → List α) (barred : α → Bool) (nodes starts seen queue : List α) :
    Prop where
  inside : seen ⊆ nodes ∧ queue ⊆ nodes
  nodup : seen.Nodup
  traced : Traced next starts seen
  free : ∀ a ∈ seen, barred a = false
  /-- what the queue holds comes from where the search was -/
  origin : ∀ a ∈ queue, a ∈ starts ∨ ∃ b ∈ seen, a ∈ next b
  /-- nothing is forgotten -/
  ahead : ∀ a ∈ seen, ∀ b ∈ next a, barred b = false → b ∈ seen ∨ b ∈ queue
  begun : ∀ a ∈ starts, barred a = false → a ∈ seen ∨ a ∈ queue

lemma Underway.skip (h : Underway next barred nodes starts seen (a :: queue))
    (hskip : a ∈ seen ∨ barred a) : Underway next barred nodes starts seen queue where
  inside := ⟨h.inside.1, fun _ hb => h.inside.2 (List.mem_cons_of_mem _ hb)⟩
  nodup := h.nodup
  traced := h.traced
  free := h.free
  origin b hb := h.origin b (List.mem_cons_of_mem _ hb)
  ahead b hb c hc hfree := by
    rcases h.ahead b hb c hc hfree with hseen | hqueue
    · exact .inl hseen
    · rcases List.mem_cons.mp hqueue with rfl | hqueue
      · exact .inl (hskip.resolve_right (by simp [hfree]))
      · exact .inr hqueue
  begun b hb hfree := by
    rcases h.begun b hb hfree with hseen | hqueue
    · exact .inl hseen
    · rcases List.mem_cons.mp hqueue with rfl | hqueue
      · exact .inl (hskip.resolve_right (by simp [hfree]))
      · exact .inr hqueue

lemma Underway.enter [DecidableEq α] (hwithin : Within next nodes)
    (h : Underway next barred nodes starts seen (a :: queue)) (hnew : a ∉ seen)
    (hfree : barred a = false) : Underway next barred nodes starts (seen ++ [a])
      (queue ++ (next a).filter fun b => b ∉ seen ++ [a] ∧ ¬ barred b) where
  inside := by
    have ha : a ∈ nodes := h.inside.2 List.mem_cons_self
    constructor
    · intro b hb
      rcases List.mem_append.mp hb with hb | hb
      · exact h.inside.1 hb
      · exact List.mem_singleton.mp hb ▸ ha
    · intro b hb
      rcases List.mem_append.mp hb with hb | hb
      · exact h.inside.2 (List.mem_cons_of_mem _ hb)
      · exact hwithin.closed a ha (List.mem_filter.mp hb).1
  nodup := List.nodup_append.mpr ⟨h.nodup, List.nodup_singleton a, fun b hb c hc hbc =>
    hnew (List.mem_singleton.mp hc ▸ hbc ▸ hb)⟩
  traced := .concat h.traced (h.origin a List.mem_cons_self)
  free b hb := by
    rcases List.mem_append.mp hb with hb | hb
    · exact h.free b hb
    · exact List.mem_singleton.mp hb ▸ hfree
  origin b hb := by
    rcases List.mem_append.mp hb with hb | hb
    · rcases h.origin b (List.mem_cons_of_mem _ hb) with hstart | ⟨c, hc, hnext⟩
      · exact .inl hstart
      · exact .inr ⟨c, List.mem_append_left _ hc, hnext⟩
    · exact .inr ⟨a, by simp, (List.mem_filter.mp hb).1⟩
  ahead b hb c hc hcfree := by
    by_cases hseen : c ∈ seen ++ [a]
    · exact .inl hseen
    right
    rcases List.mem_append.mp hb with hb | hb
    · rcases h.ahead b hb c hc hcfree with hbefore | hqueue
      · exact absurd (List.mem_append_left _ hbefore) hseen
      · rcases List.mem_cons.mp hqueue with rfl | hqueue
        · exact absurd (by simp) hseen
        · exact List.mem_append_left _ hqueue
    · obtain rfl := List.mem_singleton.mp hb
      exact List.mem_append_right _ (List.mem_filter.mpr ⟨hc, by simp [hseen, hcfree]⟩)
  begun b hb hbfree := by
    rcases h.begun b hb hbfree with hseen | hqueue
    · exact .inl (List.mem_append_left _ hseen)
    · rcases List.mem_cons.mp hqueue with rfl | hqueue
      · exact .inl (by simp)
      · exact .inr (List.mem_append_left _ hqueue)

/-- **A search ends** with an empty queue, when it has steps enough. -/
theorem search_underway [DecidableEq α] (hwithin : Within next nodes)
    (h : Underway next barred nodes starts seen queue)
    (hfuel : (nodes.length - seen.length) * (nodes.length + 1) + queue.length ≤ fuel) :
    Underway next barred nodes starts (search next barred fuel seen queue) [] := by
  induction fuel generalizing seen queue with
  | zero =>
    obtain rfl : queue = [] := List.length_eq_zero_iff.mp (by omega)
    exact h
  | succ fuel ih =>
    cases queue with
    | nil => exact h
    | cons a queue =>
      rw [search]
      split_ifs with hskip
      · apply ih (h.skip hskip)
        rw [List.length_cons] at hfuel
        omega
      · obtain ⟨hnew, hbarred⟩ := not_or.mp hskip
        have henter := h.enter hwithin hnew (by simpa using hbarred)
        apply ih henter
        -- one node fewer is unseen, and no more than all nodes come to the queue
        have hseen : (seen ++ [a]).length ≤ nodes.length :=
          (henter.nodup.subperm henter.inside.1).length_le
        have hpushed : ((next a).filter fun b => b ∉ seen ++ [a] ∧ ¬ barred b).length ≤
            nodes.length := by
          have hnext := (hwithin.nodup a).subperm (hwithin.closed a (h.inside.2 List.mem_cons_self))
          exact Nat.le_trans (List.length_filter_le _ _) hnext.length_le
        rw [List.length_append, List.length_singleton] at hseen
        rw [List.length_append, List.length_singleton, List.length_append]
        rw [List.length_cons] at hfuel
        have hless : (nodes.length - seen.length) * (nodes.length + 1) =
            (nodes.length - (seen.length + 1)) * (nodes.length + 1) + (nodes.length + 1) := by
          rw [← Nat.succ_mul]
          congr 1
          omega
        omega

lemma Traced.reaches (h : Traced next starts seen) (hfree : ∀ a ∈ seen, barred a = false)
    (hb : b ∈ seen) : ∃ a ∈ starts, barred a = false ∧ Reaches next barred a b := by
  induction h generalizing b with
  | nil => cases hb
  | @concat seen c before origin ih =>
    have hbefore : ∀ a ∈ seen, barred a = false := fun a ha => hfree a (List.mem_append_left _ ha)
    rcases List.mem_append.mp hb with hb | hb
    · exact ih hbefore hb
    · obtain rfl := List.mem_singleton.mp hb
      have hfreeb := hfree b (by simp)
      rcases origin with hstart | ⟨d, hd, hnext⟩
      · exact ⟨b, hstart, hfreeb, .refl⟩
      · obtain ⟨a, ha, hfreea, hreaches⟩ := ih hbefore hd
        exact ⟨a, ha, hfreea, hreaches.tail ⟨hnext, hfreeb⟩⟩

section

variable [DecidableEq α] (hwithin : Within next nodes) (hstarts : starts ⊆ nodes)

include hwithin hstarts

lemma underway_start : Underway next barred nodes starts
    (search next barred (enough nodes starts) [] starts) [] := by
  refine search_underway hwithin ?_ (by simp [enough])
  exact ⟨⟨List.nil_subset _, hstarts⟩, .nil, .nil, by simp, fun _ h => .inl h, by simp,
    fun _ h _ => .inr h⟩

lemma nodup_search : (search next barred (enough nodes starts) [] starts).Nodup :=
  (underway_start hwithin hstarts).nodup

lemma traced_search : Traced next starts (search next barred (enough nodes starts) [] starts) :=
  (underway_start hwithin hstarts).traced

/-- **The search sees what can be reached**, and nothing else. -/
theorem mem_search : b ∈ search next barred (enough nodes starts) [] starts ↔
    ∃ a ∈ starts, barred a = false ∧ Reaches next barred a b := by
  have hdone : Underway next barred nodes starts
      (search next barred (enough nodes starts) [] starts) [] := underway_start hwithin hstarts
  constructor
  · intro hb
    exact hdone.traced.reaches hdone.free hb
  · rintro ⟨a, ha, hfree, hreaches⟩
    have hbegun := (hdone.begun a ha hfree).resolve_right List.not_mem_nil
    induction hreaches with
    | refl => exact hbegun
    | tail _ hstep ih =>
      exact (hdone.ahead _ ih _ hstep.1 hstep.2).resolve_right List.not_mem_nil

end

/-! ### Searching level by level -/

/-- The nodes among these that were not seen, each once. -/
def fresh [DecidableEq α] (seen : List α) : List α → List α
  | [] => []
  | a :: as => if a ∈ seen then fresh seen as else a :: fresh (seen ++ [a]) as

/-- The nodes seen until a level brings no new one. -/
def sweep [DecidableEq α] (level : List α → List α) : ℕ → List α → List α → List α
  | 0, seen, _ => seen
  | _ + 1, seen, [] => seen
  | fuel + 1, seen, a :: frontier =>
    sweep level fuel (seen ++ fresh seen (level (a :: frontier)))
      (fresh seen (level (a :: frontier)))

lemma mem_fresh [DecidableEq α] {seen as : List α} {b : α} :
    b ∈ fresh seen as ↔ b ∈ as ∧ b ∉ seen := by
  induction as generalizing seen with
  | nil => simp [fresh]
  | cons a as ih =>
    rw [fresh]
    split_ifs with hseen
    · rw [ih, List.mem_cons]
      constructor
      · rintro ⟨hb, hnew⟩
        exact ⟨.inr hb, hnew⟩
      · rintro ⟨rfl | hb, hnew⟩
        · exact absurd hseen hnew
        · exact ⟨hb, hnew⟩
    · rw [List.mem_cons, ih, List.mem_cons, List.mem_append, List.mem_singleton]
      constructor
      · rintro (rfl | ⟨hb, hnew⟩)
        · exact ⟨.inl rfl, hseen⟩
        · exact ⟨.inr hb, fun h => hnew (.inl h)⟩
      · rintro ⟨rfl | hb, hnew⟩
        · exact .inl rfl
        · by_cases hba : b = a
          · exact .inl hba
          · exact .inr ⟨hb, fun h => h.elim hnew hba⟩

lemma nodup_fresh [DecidableEq α] {seen as : List α} : (fresh seen as).Nodup := by
  induction as generalizing seen with
  | nil => exact .nil
  | cons a as ih =>
    rw [fresh]
    split_ifs
    · exact ih
    · exact List.nodup_cons.mpr ⟨fun h => (mem_fresh.1 h).2 (by simp), ih⟩

/-- Where a search by levels stands: what was seen has been left, or is the frontier. -/
structure Sweeping (R : α → α → Prop) (start : α) (nodes seen frontier : List α) : Prop where
  inside : ∀ a ∈ seen, a = start ∨ a ∈ nodes
  nodup : seen.Nodup
  begun : start ∈ seen
  edge : frontier ⊆ seen
  reached : ∀ a ∈ seen, Relation.ReflTransGen R start a
  left : ∀ a ∈ seen, a ∉ frontier → ∀ b, R a b → b ∈ seen

section

variable [DecidableEq α] {R : α → α → Prop} {level : List α → List α} {start b : α}
  {nodes seen frontier : List α} {fuel : ℕ}
  (hlevel : ∀ frontier b, b ∈ level frontier ↔ ∃ a ∈ frontier, R a b)
  (hnodes : ∀ a b, R a b → b ∈ nodes)

include hlevel hnodes

lemma Sweeping.advance (h : Sweeping R start nodes seen frontier) :
    Sweeping R start nodes (seen ++ fresh seen (level frontier)) (fresh seen (level frontier)) where
  inside a ha := by
    rcases List.mem_append.mp ha with ha | ha
    · exact h.inside a ha
    · obtain ⟨c, -, hstep⟩ := (hlevel _ _).mp (mem_fresh.1 ha).1
      exact .inr (hnodes c a hstep)
  nodup := List.nodup_append.mpr ⟨h.nodup, nodup_fresh, fun _ ha _ hb hab =>
    (mem_fresh.1 hb).2 (hab ▸ ha)⟩
  begun := List.mem_append_left _ h.begun
  edge := List.subset_append_right _ _
  reached a ha := by
    rcases List.mem_append.mp ha with ha | ha
    · exact h.reached a ha
    · obtain ⟨c, hc, hstep⟩ := (hlevel _ _).mp (mem_fresh.1 ha).1
      exact (h.reached c (h.edge hc)).tail hstep
  left a ha hout c hstep := by
    have hseen := (List.mem_append.mp ha).resolve_right hout
    by_cases hc : c ∈ seen
    · exact List.mem_append_left _ hc
    have hedge : a ∈ frontier := by
      by_contra hleft
      exact hc (h.left a hseen hleft c hstep)
    exact List.mem_append_right _ (mem_fresh.2 ⟨(hlevel _ _).mpr ⟨a, hedge, hstep⟩, hc⟩)

/-- A search by levels ends with an empty frontier, when it has steps enough. -/
lemma sweep_done (h : Sweeping R start nodes seen frontier)
    (hfuel : frontier = [] ∨ nodes.length + 1 < fuel + seen.length) :
    Sweeping R start nodes (sweep level fuel seen frontier) [] := by
  induction fuel generalizing seen frontier with
  | zero =>
    rcases hfuel with rfl | hfuel
    · exact h
    · have hsubset : seen ⊆ start :: nodes := fun a ha => List.mem_cons.mpr (h.inside a ha)
      have hle : seen.length ≤ (start :: nodes).length := (h.nodup.subperm hsubset).length_le
      rw [List.length_cons] at hle
      omega
  | succ fuel ih =>
    cases frontier with
    | nil => exact h
    | cons a frontier =>
      rw [sweep]
      refine ih (h.advance hlevel hnodes) ?_
      rcases hfuel with hfuel | hfuel
      · cases hfuel
      -- a level that is not the last brings a node
      cases hnew : fresh seen (level (a :: frontier)) with
      | nil => exact .inl rfl
      | cons b new =>
        right
        rw [List.length_append, List.length_cons]
        omega

/-- **The search by levels sees what can be reached**, and nothing else. -/
theorem mem_sweep : b ∈ sweep level (nodes.length + 1) [start] [start] ↔
    Relation.ReflTransGen R start b := by
  have hstart : Sweeping R start nodes [start] [start] := by
    refine ⟨by simp, by simp, by simp, by simp, ?_, by simp⟩
    intro a ha
    exact List.mem_singleton.mp ha ▸ .refl
  have hdone : Sweeping R start nodes (sweep level (nodes.length + 1) [start] [start]) [] :=
    sweep_done hlevel hnodes hstart (.inr (by simp))
  constructor
  · exact hdone.reached b
  · intro hreaches
    induction hreaches with
    | refl => exact hdone.begun
    | tail _ hstep ih => exact hdone.left _ ih List.not_mem_nil _ hstep

end

end Workbench.Lib.Reach
