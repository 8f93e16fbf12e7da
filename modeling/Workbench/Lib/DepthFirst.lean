import Mathlib.Data.List.Chain
import Mathlib.Data.List.Nodup
import Mathlib.Data.List.Perm.Subperm
import Mathlib.Logic.Relation
import Mathlib.Tactic.Lemma

/-!
Searching a graph in depth.

The search goes along a path, and is done with a node when it is done with all nodes next to it. It
stops at a node that is on its path, since there a cycle closes. Where it does not stop, the nodes
stand behind all that are next to them, in the order in which it was done with them.
-/

namespace Workbench.Lib.DepthFirst

variable {α : Type*} {next : α → List α} {nodes path done cycle : List α} {a b : α} {fuel : ℕ}

/-- Where a search is, and what it is done with. -/
structure Search (α : Type*) where
  path : List α
  done : List α

/-- Why a search stops. -/
inductive Stop (α : Type*)
  | cycle (nodes : List α)
  | fuel

/-- On to a node that is next. -/
def follow [DecidableEq α] (visit : Search α → α → Except (Stop α) (Search α)) (search : Search α)
    (a : α) : Except (Stop α) (Search α) :=
  if a ∈ search.path then .error (.cycle (search.path.drop (search.path.idxOf a) ++ [a]))
  else if a ∈ search.done then .ok search
  else visit search a

def visit [DecidableEq α] (next : α → List α) : ℕ → Search α → α → Except (Stop α) (Search α)
  | 0, _, _ => .error .fuel
  | fuel + 1, search, a => do
    let inside ← (next a).foldlM (follow (visit next fuel)) ⟨search.path ++ [a], search.done⟩
    return ⟨inside.path.dropLast, inside.done ++ [a]⟩

/-- The search from one node after the other; its path is empty in between. -/
def explore [DecidableEq α] (next : α → List α) (fuel : ℕ) (as : List α) :
    Except (Stop α) (Search α) :=
  as.foldlM (follow (visit next fuel)) ⟨[], []⟩

/-- A search that does not look for cycles: what it went into, and what it is done with. -/
def order [DecidableEq α] (next : α → List α) : ℕ → List α × List α → α → List α × List α
  | 0, reached, _ => reached
  | fuel + 1, (visited, done), a =>
    if a ∈ visited then (visited, done)
    else
      let inside := (next a).foldl (order next fuel) (visited ++ [a], done)
      (inside.1, inside.2 ++ [a])

def Step (next : α → List α) (a b : α) : Prop := b ∈ next a

/-- No way leads from a node back to it. -/
def Acyclic (next : α → List α) : Prop := ∀ a, ¬ Relation.TransGen (Step next) a a

/-- A way from a node back to it. -/
def IsCycle (next : α → List α) (cycle : List α) : Prop :=
  ∃ a inner, cycle = a :: (inner ++ [a]) ∧ cycle.IsChain (Step next)

/-- Every node stands behind those next to it. -/
inductive Settled (next : α → List α) : List α → Prop
  | nil : Settled next []
  | concat {done : List α} {a : α} (before : Settled next done) (behind : next a ⊆ done) :
      Settled next (done ++ [a])

/-! ### Settled nodes -/

lemma Settled.closed (h : Settled next done) (ha : a ∈ done) : next a ⊆ done := by
  induction h with
  | nil => cases ha
  | concat _ hbehind ih =>
    rcases List.mem_append.mp ha with ha | ha
    · exact fun b hb => List.mem_append_left _ (ih ha hb)
    · obtain rfl := List.mem_singleton.mp ha
      exact fun b hb => List.mem_append_left _ (hbehind hb)

lemma Settled.mem_of_transGen (h : Settled next done) (ha : a ∈ done)
    (hab : Relation.TransGen (Step next) a b) : b ∈ done := by
  induction hab with
  | single hstep => exact h.closed ha hstep
  | tail _ hstep ih => exact h.closed ih hstep

/-- No way leads back to a settled node. -/
lemma Settled.acyclic (h : Settled next done) (hnodup : done.Nodup) (ha : a ∈ done) :
    ¬ Relation.TransGen (Step next) a a := by
  induction h with
  | nil => cases ha
  | @concat done c hbefore hbehind ih =>
    obtain ⟨hdone, -, hdisjoint⟩ := List.nodup_append.mp hnodup
    rcases List.mem_append.mp ha with ha | ha
    · exact ih hdone ha
    · obtain rfl := List.mem_singleton.mp ha
      intro hcycle
      -- the way goes into the nodes before, and cannot leave them
      obtain ⟨b, hstep, hback⟩ := Relation.TransGen.head'_iff.mp hcycle
      have hb := hbehind hstep
      have ha' : a ∈ done := by
        rcases Relation.reflTransGen_iff_eq_or_transGen.mp hback with rfl | hback
        · exact hb
        · exact hbefore.mem_of_transGen hb hback
      exact hdisjoint a ha' a (by simp) rfl

/-- No node is next to the one that stands before all others. -/
lemma Settled.next_head {rest : List α} (h : Settled next (a :: rest)) : next a = [] := by
  generalize hdone : a :: rest = done at h
  induction h generalizing rest with
  | nil => cases hdone
  | @concat done c hbefore hbehind ih =>
    cases done with
    | nil =>
      obtain ⟨rfl, -⟩ := List.cons.inj hdone
      exact List.subset_nil.mp hbehind
    | cons b done =>
      obtain ⟨rfl, -⟩ := List.cons.inj hdone
      exact ih rfl

/-- No node is next to one that stands before it. -/
lemma Settled.pairwise (h : Settled next done) (hnodup : done.Nodup) :
    done.Pairwise fun a b => b ∉ next a := by
  induction h with
  | nil => exact .nil
  | @concat done c hbefore _ ih =>
    obtain ⟨hdone, -, hdisjoint⟩ := List.nodup_append.mp hnodup
    refine List.pairwise_append.mpr ⟨ih hdone, List.pairwise_singleton _ _, ?_⟩
    intro a ha b hb hnext
    obtain rfl := List.mem_singleton.mp hb
    exact hdisjoint b (hbefore.closed ha hnext) b (by simp) rfl

/-! ### Cycles -/

lemma IsCycle.transGen (h : IsCycle next cycle) : ∃ a, Relation.TransGen (Step next) a a := by
  obtain ⟨a, inner, rfl, hchain⟩ := h
  refine ⟨a, ?_⟩
  cases inner with
  | nil =>
    exact .single (List.isChain_pair.mp hchain)
  | cons b inner =>
    obtain ⟨hstep, hback⟩ := List.isChain_cons_cons.mp hchain
    have hreaches := List.relationReflTransGen_of_exists_isChain_cons (b := a) _ hback (by simp)
    exact .head' hstep hreaches

/-- A path that comes back to one of its nodes ends with a cycle. -/
lemma isCycle_of_mem_path [DecidableEq α] (hchain : path.IsChain (Step next)) (ha : a ∈ path)
    (hlast : ∀ b ∈ path.getLast?, a ∈ next b) :
    IsCycle next (path.drop (path.idxOf a) ++ [a]) := by
  have hlt := List.idxOf_lt_length_of_mem ha
  have hdrop : path.drop (path.idxOf a) = a :: path.drop (path.idxOf a + 1) := by
    rw [List.drop_eq_getElem_cons hlt, List.getElem_idxOf]
  refine ⟨a, path.drop (path.idxOf a + 1), by rw [hdrop, List.cons_append], ?_⟩
  apply (hchain.drop _).append (List.isChain_singleton a)
  intro b hb c hc
  obtain rfl : a = c := by simpa using hc
  apply hlast b
  rwa [List.getLast?_drop, if_neg (by omega)] at hb

/-! ### The search -/

/-- Where a search through the nodes can stand. -/
structure Underway (next : α → List α) (nodes : List α) (search : Search α) : Prop where
  chain : search.path.IsChain (Step next)
  settled : Settled next search.done
  nodup : (search.path ++ search.done).Nodup
  inside : search.path ++ search.done ⊆ nodes

/-- How a visit of nodes ends: the search is where it was, and done with them, or a cycle closed. -/
def Visited (next : α → List α) (nodes : List α) (search : Search α) (as : List α) :
    Except (Stop α) (Search α) → Prop
  | .ok after => Underway next nodes after ∧ after.path = search.path ∧
      search.done ⊆ after.done ∧ as ⊆ after.done
  | .error (.cycle cycle) => IsCycle next cycle
  | .error .fuel => False

variable {search : Search α} {as : List α} {r : Except (Stop α) (Search α)}
  {f : Search α → Except (Stop α) (Search α)}

lemma Visited.bind (h : Visited next nodes search [a] r)
    (hf : ∀ after, r = .ok after → Underway next nodes after → after.path = search.path →
      Visited next nodes after as (f after)) : Visited next nodes search (a :: as) (r >>= f) := by
  cases r with
  | error stop => cases stop <;> exact h
  | ok after =>
    obtain ⟨hunderway, hpath, hdone, ha⟩ := h
    have hrest := hf after rfl hunderway hpath
    change Visited next nodes search (a :: as) (f after)
    cases hafter : f after with
    | error stop =>
      rw [hafter] at hrest
      cases stop <;> exact hrest
    | ok final =>
      rw [hafter] at hrest
      obtain ⟨hfinal, hfpath, hfdone, has⟩ := hrest
      refine ⟨hfinal, hfpath.trans hpath, fun b hb => hfdone (hdone hb), ?_⟩
      exact List.cons_subset.mpr ⟨hfdone (ha (by simp)), has⟩

/-- What is asked of a visit: of every node at the end of the path that the search is not done
with, it does what it says. -/
def Visits (next : α → List α) (nodes : List α) (length : ℕ)
    (visit : Search α → α → Except (Stop α) (Search α)) : Prop :=
  ∀ search a, Underway next nodes search → search.path.length = length → a ∈ nodes →
    a ∉ search.path → a ∉ search.done → (∀ b ∈ search.path.getLast?, a ∈ next b) →
    Visited next nodes search [a] (visit search a)

lemma visited_follow [DecidableEq α] {visit : Search α → α → Except (Stop α) (Search α)}
    (hvisit : Visits next nodes search.path.length visit) (h : Underway next nodes search)
    (ha : a ∈ nodes) (hlast : ∀ b ∈ search.path.getLast?, a ∈ next b) :
    Visited next nodes search [a] (follow visit search a) := by
  unfold follow
  split_ifs with hpath hdone
  · exact isCycle_of_mem_path h.chain hpath hlast
  · exact ⟨h, rfl, List.Subset.refl _, by simpa using hdone⟩
  · exact hvisit search a h rfl ha hpath hdone hlast

lemma visited_foldlM {visit : Search α → α → Except (Stop α) (Search α)}
    (h : Underway next nodes search)
    (hvisit : ∀ after, ∀ a ∈ as, Underway next nodes after → after.path = search.path →
      Visited next nodes after [a] (visit after a)) :
    Visited next nodes search as (as.foldlM visit search) := by
  induction as generalizing search with
  | nil => exact ⟨h, rfl, List.Subset.refl _, List.nil_subset _⟩
  | cons a as ih =>
    rw [List.foldlM_cons]
    apply (hvisit search a List.mem_cons_self h rfl).bind
    intro after _ hafter hpath
    apply ih hafter
    intro final b hb hfinal hfpath
    exact hvisit final b (List.mem_cons_of_mem _ hb) hfinal (hfpath.trans hpath)

lemma Underway.enter (h : Underway next nodes search) (ha : a ∈ nodes) (hpath : a ∉ search.path)
    (hdone : a ∉ search.done) (hlast : ∀ b ∈ search.path.getLast?, a ∈ next b) :
    Underway next nodes ⟨search.path ++ [a], search.done⟩ where
  chain := h.chain.append (List.isChain_singleton a) fun b hb c hc => by
    obtain rfl : a = c := by simpa using hc
    exact hlast b hb
  settled := h.settled
  nodup := by
    rw [List.append_assoc]
    have hnodup := h.nodup
    grind [List.nodup_append]
  inside := by
    intro b hb
    have hinside := h.inside
    grind

/-- The search is done with a node when it is done with all that are next to it. -/
lemma Underway.leave {done : List α} (h : Underway next nodes ⟨path ++ [a], done⟩)
    (hnext : next a ⊆ done) : Underway next nodes ⟨path, done ++ [a]⟩ where
  chain := h.chain.left_of_append
  settled := .concat h.settled hnext
  nodup := by
    have hnodup := h.nodup
    grind [List.nodup_append]
  inside := by
    intro b hb
    have hinside := h.inside
    grind

/-- **What a visit does**, when the nodes are closed and there is fuel for all of them. -/
theorem visits_visit [DecidableEq α] (hclosed : ∀ a ∈ nodes, next a ⊆ nodes) {length : ℕ}
    (hfuel : nodes.length ≤ fuel + length) : Visits next nodes length (visit next fuel) := by
  induction fuel generalizing length with
  | zero =>
    intro search a h hlength ha hpath hdone hlast
    -- the path and the node are nodes, one more than there are
    have henter := h.enter ha hpath hdone hlast
    have hle := (henter.nodup.subperm henter.inside).length_le
    simp only [List.length_append, List.length_singleton] at hle
    omega
  | succ fuel ih =>
    intro search a h hlength ha hpath hdone hlast
    have henter := h.enter ha hpath hdone hlast
    have hinside : Visited next nodes ⟨search.path ++ [a], search.done⟩ (next a)
        ((next a).foldlM (follow (visit next fuel)) ⟨search.path ++ [a], search.done⟩) := by
      apply visited_foldlM henter
      intro after b hb hafter hpath
      have hlong : after.path.length = length + 1 := by simp [hpath, hlength]
      refine visited_follow (hlong ▸ ih (by omega)) hafter (hclosed a ha hb) ?_
      simpa [hpath] using hb
    rw [visit]
    cases hr : (next a).foldlM (follow (visit next fuel)) ⟨search.path ++ [a], search.done⟩ with
    | error stop =>
      rw [hr] at hinside
      cases stop <;> exact hinside
    | ok inside =>
      rw [hr] at hinside
      obtain ⟨path, done⟩ := inside
      obtain ⟨hunderway, rfl, hsub, hnext⟩ := hinside
      refine ⟨?_, ?_, ?_, ?_⟩
      · rw [List.dropLast_concat]
        exact hunderway.leave hnext
      · exact List.dropLast_concat
      · exact fun b hb => List.mem_append_left _ (hsub hb)
      · simp

/-- **A search through nodes** ends with a cycle, or is done with them. -/
theorem visited_explore [DecidableEq α] (hclosed : ∀ a ∈ nodes, next a ⊆ nodes) (has : as ⊆ nodes)
    (hfuel : nodes.length ≤ fuel) : Visited next nodes ⟨[], []⟩ as (explore next fuel as) := by
  have hstart : Underway next nodes ⟨[], []⟩ := ⟨.nil, .nil, .nil, List.nil_subset _⟩
  apply visited_foldlM hstart
  intro after a ha hafter hpath
  have hnil : after.path = [] := hpath
  have hlength : nodes.length ≤ fuel + after.path.length := by omega
  exact visited_follow (visits_visit hclosed hlength) hafter (has ha) (by simp [hnil])

/-- A search through nodes of a graph without cycles is done with them. -/
lemma explore_ok [DecidableEq α] (hclosed : ∀ a ∈ nodes, next a ⊆ nodes) (has : as ⊆ nodes)
    (hfuel : nodes.length ≤ fuel) (hacyclic : Acyclic next) :
    ∃ after, explore next fuel as = .ok after := by
  have hvisited := visited_explore hclosed has hfuel
  cases hexplore : explore next fuel as with
  | ok after => exact ⟨after, rfl⟩
  | error stop =>
    rw [hexplore] at hvisited
    cases stop with
    | cycle cycle =>
      obtain ⟨a, hcycle⟩ := IsCycle.transGen hvisited
      exact absurd hcycle (hacyclic a)
    | fuel => exact hvisited.elim

/-! ### The search that does not look for cycles -/

lemma path_foldlM {visit : Search α → α → Except (Stop α) (Search α)} {after : Search α}
    (hvisit : ∀ search after, ∀ a ∈ as, visit search a = .ok after → after.path = search.path)
    (h : as.foldlM visit search = .ok after) : after.path = search.path := by
  induction as generalizing search with
  | nil =>
    obtain rfl := Except.ok.inj h
    rfl
  | cons a as ih =>
    rw [List.foldlM_cons] at h
    cases hfirst : visit search a with
    | error stop =>
      rw [hfirst] at h
      cases h
    | ok first =>
      rw [hfirst] at h
      have hrest := ih
        (fun search after b hb => hvisit search after b (List.mem_cons_of_mem _ hb)) h
      exact hrest.trans (hvisit search first a List.mem_cons_self hfirst)

variable {after : Search α} {visited : List α}

lemma path_visit [DecidableEq α] (h : visit next fuel search a = .ok after) :
    after.path = search.path := by
  induction fuel generalizing search a after with
  | zero => cases h
  | succ fuel ih =>
    rw [visit] at h
    cases hinside : (next a).foldlM (follow (visit next fuel))
        ⟨search.path ++ [a], search.done⟩ with
    | error stop =>
      rw [hinside] at h
      cases h
    | ok inside =>
      rw [hinside] at h
      obtain rfl := Except.ok.inj h
      have hpath : inside.path = search.path ++ [a] := by
        apply path_foldlM _ hinside
        intro search after b _ hfollow
        unfold follow at hfollow
        split_ifs at hfollow with _ hdone
        · obtain rfl := Except.ok.inj hfollow
          rfl
        · exact ih hfollow
      simp [hpath]

lemma path_follow [DecidableEq α] (h : follow (visit next fuel) search a = .ok after) :
    after.path = search.path := by
  unfold follow at h
  split_ifs at h
  · obtain rfl := Except.ok.inj h
    rfl
  · exact path_visit h

/-- The search went into the nodes on the path, and into those it is done with. -/
def Reached (search : Search α) (visited : List α) : Prop :=
  ∀ b, b ∈ visited ↔ b ∈ search.path ∨ b ∈ search.done

/-- What the searches do at a node is the same. -/
def Agree (visit : Search α → α → Except (Stop α) (Search α))
    (order : List α × List α → α → List α × List α) : Prop :=
  ∀ search a after visited, visit search a = .ok after → Reached search visited →
    ∃ visited', order (visited, search.done) a = (visited', after.done) ∧ Reached after visited'

lemma Agree.foldlM {visit : Search α → α → Except (Stop α) (Search α)}
    {order : List α × List α → α → List α × List α} (hagree : Agree visit order)
    (h : as.foldlM visit search = .ok after) (hreached : Reached search visited) :
    ∃ visited', as.foldl order (visited, search.done) = (visited', after.done) ∧
      Reached after visited' := by
  induction as generalizing search visited with
  | nil =>
    obtain rfl := Except.ok.inj h
    exact ⟨visited, rfl, hreached⟩
  | cons a as ih =>
    rw [List.foldlM_cons] at h
    cases hfirst : visit search a with
    | error stop =>
      rw [hfirst] at h
      cases h
    | ok first =>
      rw [hfirst] at h
      obtain ⟨visited', horder, hfreached⟩ := hagree search a first visited hfirst hreached
      rw [List.foldl_cons, horder]
      exact ih h hfreached

/-- **Where no cycle closes**, the search that does not look for cycles does the same. -/
theorem agree_follow [DecidableEq α] : Agree (follow (visit next fuel)) (order next fuel) := by
  induction fuel with
  | zero =>
    intro search a after visited h hreached
    unfold follow at h
    split_ifs at h
    · obtain rfl := Except.ok.inj h
      exact ⟨visited, rfl, hreached⟩
    · cases h
  | succ fuel ih =>
    intro search a after visited h hreached
    have hvisited := hreached a
    unfold follow at h
    split_ifs at h with hpath hdone
    · obtain rfl := Except.ok.inj h
      exact ⟨visited, by rw [order, if_pos (hvisited.mpr (.inr hdone))], hreached⟩
    · rw [order, if_neg (fun ha => (hvisited.mp ha).elim hpath hdone)]
      rw [visit] at h
      cases hinside : (next a).foldlM (follow (visit next fuel))
          ⟨search.path ++ [a], search.done⟩ with
      | error stop =>
        rw [hinside] at h
        cases h
      | ok inside =>
        rw [hinside] at h
        obtain rfl := Except.ok.inj h
        have henter : Reached ⟨search.path ++ [a], search.done⟩ (visited ++ [a]) := by
          intro b
          have hb := hreached b
          grind
        obtain ⟨visited', horder, hinreached⟩ := ih.foldlM hinside henter
        refine ⟨visited', by rw [horder], ?_⟩
        have hpath := path_foldlM (fun _ _ _ _ => path_follow) hinside
        intro b
        have hb := hinreached b
        simp only [hpath, List.dropLast_concat, List.mem_append, List.mem_singleton] at hb ⊢
        tauto

/-- **The order of a search** through nodes of a graph without cycles: each of them once, behind
all that are next to it. -/
theorem settled_order [DecidableEq α] (hclosed : ∀ a ∈ nodes, next a ⊆ nodes) (has : as ⊆ nodes)
    (hfuel : nodes.length ≤ fuel) (hacyclic : Acyclic next) :
    ∃ visited done, as.foldl (order next fuel) ([], []) = (visited, done) ∧ Settled next done ∧
      done.Nodup ∧ as ⊆ done ∧ done ⊆ nodes := by
  obtain ⟨after, hafter⟩ := explore_ok hclosed has hfuel hacyclic
  have hvisited := visited_explore hclosed has hfuel
  rw [hafter] at hvisited
  obtain ⟨hunderway, -, -, hsub⟩ := hvisited
  have hstart : Reached (⟨[], []⟩ : Search α) [] := fun _ => by simp
  obtain ⟨visited, horder, -⟩ := Agree.foldlM agree_follow hafter hstart
  refine ⟨visited, after.done, horder, hunderway.settled, ?_, hsub, ?_⟩
  · exact (List.nodup_append.mp hunderway.nodup).2.1
  · exact fun b hb => hunderway.inside (List.mem_append_right _ hb)

end Workbench.Lib.DepthFirst
