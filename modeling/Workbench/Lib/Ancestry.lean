import Mathlib.Data.List.Chain
import Mathlib.Data.List.Perm.Subperm
import Mathlib.Logic.Relation
import Mathlib.Tactic.Lemma

/-!
Climbing from a node to the node above it, as long as there is one.

The climb ends above every node when finitely many nodes have one above them and no node stands
above itself. From a node that does it never ends.
-/

namespace Workbench.Lib.Ancestry

variable {α : Type*} {above : α → Option α} {a b : α} {fuel fuel' : ℕ}

/-- The node that has none above it, if the climb reaches it in time. -/
def top (above : α → Option α) : ℕ → α → Option α
  | 0, _ => none
  | fuel + 1, a =>
    match above a with
    | none => some a
    | some b => top above fuel b

def Step (above : α → Option α) (a b : α) : Prop := above a = some b

/-- No node stands above itself. -/
def Acyclic (above : α → Option α) : Prop := ∀ a, ¬ Relation.TransGen (Step above) a a

lemma top_succ : top above (fuel + 1) a =
    match above a with
    | none => some a
    | some b => top above fuel b := rfl

lemma top_of_none (h : above a = none) : top above (fuel + 1) a = some a := by
  rw [top_succ, h]

lemma top_of_some (h : above a = some b) : top above (fuel + 1) a = top above fuel b := by
  rw [top_succ, h]

/-- More fuel does not change where a climb ends. -/
lemma top_mono (h : top above fuel a = some b) (hle : fuel ≤ fuel') :
    top above fuel' a = some b := by
  induction fuel generalizing a fuel' with
  | zero => cases h
  | succ fuel ih =>
    obtain ⟨fuel', rfl⟩ := Nat.exists_eq_add_of_le' (Nat.one_le_of_lt hle)
    cases hnext : above a with
    | none => rwa [top_of_none hnext] at h ⊢
    | some c =>
      rw [top_of_some hnext] at h ⊢
      exact ih h (Nat.le_of_succ_le_succ hle)

/-- All climbs from one node that end at all end at one node. -/
lemma top_unique {b' : α} (h : top above fuel a = some b) (h' : top above fuel' a = some b') :
    b = b' := by
  rcases Nat.le_total fuel fuel' with hle | hle
  · exact Option.some.inj ((top_mono h hle).symm.trans h')
  · exact Option.some.inj (h.symm.trans (top_mono h' hle))

/-- A node and the node above it are below the same top. -/
lemma top_above (h : above a = some b) {c c' : α} (ha : top above fuel a = some c)
    (hb : top above fuel' b = some c') : c = c' := by
  have hstep : top above (fuel' + 1) a = top above fuel' b := top_of_some h
  rw [← hstep] at hb
  exact top_unique ha hb

/-- The climb goes on for ever from a node that stands above itself. -/
lemma top_of_cycle (h : Relation.TransGen (Step above) a a) : top above fuel a = none := by
  induction fuel generalizing a with
  | zero => rfl
  | succ fuel ih =>
    obtain ⟨c, hac, hca⟩ := Relation.TransGen.head'_iff.mp h
    rw [top_of_some hac]
    exact ih (Relation.TransGen.tail' hca hac)

/-- What the climb has seen are different nodes, so it has not seen more than there are. -/
lemma top_isSome_of_seen {keys seen : List α} (hkeys : ∀ a b, above a = some b → a ∈ keys)
    (hacyclic : Acyclic above) (hnodup : seen.Nodup) (hseen : ∀ c ∈ seen, c ∈ keys)
    (hbelow : ∀ c ∈ seen, Relation.TransGen (Step above) c a)
    (hfuel : keys.length < fuel + seen.length) : (top above fuel a).isSome := by
  induction fuel generalizing a seen with
  | zero =>
    have hle : seen.length ≤ keys.length := (List.subperm_of_subset hnodup hseen).length_le
    omega
  | succ fuel ih =>
    cases hnext : above a with
    | none => rw [top_of_none hnext]; rfl
    | some b =>
      rw [top_of_some hnext]
      have hnew : a ∉ seen := fun ha => hacyclic a (hbelow a ha)
      refine ih (List.nodup_cons.mpr ⟨hnew, hnodup⟩) ?_ ?_ ?_
      · exact List.forall_mem_cons.mpr ⟨hkeys a b hnext, hseen⟩
      · exact List.forall_mem_cons.mpr ⟨.single hnext, fun c hc => (hbelow c hc).tail hnext⟩
      · rw [List.length_cons]
        omega

/-- **The climb ends** within one step more than there are nodes with one above them. -/
theorem top_isSome {keys : List α} (hkeys : ∀ a b, above a = some b → a ∈ keys)
    (hacyclic : Acyclic above) (a : α) : (top above (keys.length + 1) a).isSome :=
  top_isSome_of_seen hkeys hacyclic .nil (by simp) (by simp) (by simp)

/-! ### The nodes on the way -/

/-- Why a climb has no end. -/
inductive Halt (α : Type*)
  /-- it is back at a node -/
  | again (a : α)
  /-- it was cut off -/
  | short
  deriving DecidableEq, Repr

/-- The nodes on the way up, where a node that was seen before stops the climb. -/
def chain [DecidableEq α] (above : α → Option α) : ℕ → List α → α → Except (Halt α) (List α)
  | 0, _, _ => .error .short
  | fuel + 1, seen, a =>
    if a ∈ seen then .error (.again a)
    else
      match above a with
      | none => .ok (seen ++ [a])
      | some b => chain above fuel (seen ++ [a]) b

lemma chain_succ [DecidableEq α] {seen : List α} : chain above (fuel + 1) seen a =
    if a ∈ seen then .error (.again a)
    else
      match above a with
      | none => .ok (seen ++ [a])
      | some b => chain above fuel (seen ++ [a]) b := rfl

/-- Where a climb stands, before it looks at the next node. -/
structure Climbing (above : α → Option α) (start : α) (seen : List α) (a : α) : Prop where
  nodup : seen.Nodup
  passed : (seen ++ [a]).IsChain (Step above)
  begun : (seen ++ [a]).head? = some start

/-- A whole climb. -/
structure Climbed (above : α → Option α) (start : α) (nodes : List α) : Prop where
  nodup : nodes.Nodup
  passed : nodes.IsChain (Step above)
  begun : nodes.head? = some start
  ended : ∃ a, nodes.getLast? = some a ∧ above a = none

lemma Climbing.next {start : α} {seen : List α} (h : Climbing above start seen a) (hnew : a ∉ seen)
    (habove : above a = some b) : Climbing above start (seen ++ [a]) b where
  nodup := List.nodup_append.mpr ⟨h.nodup, List.pairwise_singleton _ a, fun c hc d hd hcd =>
    hnew (List.mem_singleton.mp hd ▸ hcd ▸ hc)⟩
  passed := by
    refine List.isChain_append.mpr ⟨h.passed, .singleton b, ?_⟩
    intro c hc d hd
    rw [List.getLast?_append, List.getLast?_singleton] at hc
    simp only [Option.some_or, Option.mem_def, Option.some.injEq, List.head?_cons] at hc hd
    subst hc hd
    exact habove
  begun := by
    rw [List.head?_append, h.begun]
    rfl

lemma chain_climbed [DecidableEq α] {start : α} {seen nodes : List α}
    (h : Climbing above start seen a) (hok : chain above fuel seen a = .ok nodes) :
    Climbed above start nodes := by
  induction fuel generalizing seen a with
  | zero => cases hok
  | succ fuel ih =>
    rw [chain_succ] at hok
    split_ifs at hok with hseen
    split at hok
    · next htop =>
      obtain rfl := Except.ok.inj hok
      refine ⟨?_, h.passed, h.begun, a, by simp, htop⟩
      exact List.nodup_append.mpr ⟨h.nodup, List.pairwise_singleton _ a, fun c hc d hd hcd =>
        hseen (List.mem_singleton.mp hd ▸ hcd ▸ hc)⟩
    · next b habove => exact ih (h.next hseen habove) hok

/-- A climb stops at a node that stands above itself. -/
lemma again_of_chain [DecidableEq α] {start : α} {seen : List α} (h : Climbing above start seen a)
    (hagain : chain above fuel seen a = .error (.again b)) :
    Relation.ReflTransGen (Step above) start b ∧ Relation.TransGen (Step above) b b := by
  induction fuel generalizing seen a with
  | zero => cases hagain
  | succ fuel ih =>
    rw [chain_succ] at hagain
    split_ifs at hagain with hseen
    · obtain rfl : a = b := by simpa using hagain
      have hpair : (seen ++ [a]).Pairwise (Relation.TransGen (Step above)) :=
        (h.passed.imp fun _ _ hstep => .single hstep).pairwise
      have hself : Relation.TransGen (Step above) a a :=
        (List.pairwise_append.mp hpair).2.2 a hseen a (by simp)
      refine ⟨?_, hself⟩
      cases seen with
      | nil => cases hseen
      | cons c seen =>
        obtain rfl : c = start := by simpa using h.begun
        rcases List.mem_cons.mp hseen with rfl | hmem
        · exact .refl
        · exact ((List.pairwise_cons.mp hpair).1 a (by simp [hmem])).to_reflTransGen
    · split at hagain
      · cases hagain
      · next c habove => exact ih (h.next hseen habove) hagain

/-- What the climb has seen are different nodes, so it is not cut off. -/
lemma chain_ne_short [DecidableEq α] {keys seen : List α}
    (hkeys : ∀ a b, above a = some b → a ∈ keys) (hnodup : seen.Nodup) (hseen : seen ⊆ keys)
    (hfuel : keys.length < fuel + seen.length) : chain above fuel seen a ≠ .error .short := by
  induction fuel generalizing seen a with
  | zero =>
    have hle : seen.length ≤ keys.length := (hnodup.subperm hseen).length_le
    omega
  | succ fuel ih =>
    rw [chain_succ]
    split_ifs with hmem
    · simp
    split
    · simp
    · next b habove =>
      refine ih ?_ ?_ ?_
      · exact List.nodup_append.mpr ⟨hnodup, List.pairwise_singleton _ a, fun c hc d hd hcd =>
          hmem (List.mem_singleton.mp hd ▸ hcd ▸ hc)⟩
      · exact List.append_subset.mpr
          ⟨hseen, fun c hc => List.mem_singleton.mp hc ▸ hkeys a b habove⟩
      · rw [List.length_append, List.length_singleton]
        omega

lemma climbing_start : Climbing above a [] a := ⟨.nil, .singleton a, rfl⟩

/-- The nodes on the way up, or the node at which a circle is met. -/
def climb [DecidableEq α] (above : α → Option α) (keys : List α)
    (hkeys : ∀ a b, above a = some b → a ∈ keys) (a : α) : Except α (List α) :=
  match hchain : chain above (keys.length + 1) [] a with
  | .ok nodes => .ok nodes
  | .error (.again b) => .error b
  | .error .short => absurd hchain (chain_ne_short hkeys .nil (List.nil_subset _) (by simp))

lemma Climbed.cases {nodes : List α} (h : Climbed above a nodes) :
    nodes = [a] ∧ above a = none ∨
      ∃ b rest, nodes = a :: rest ∧ above a = some b ∧ a ∉ rest ∧ Climbed above b rest := by
  obtain ⟨hnodup, hpassed, hbegun, last, hlast, htop⟩ := h
  match nodes with
  | [] => cases hbegun
  | [c] =>
    obtain rfl : c = a := by simpa using hbegun
    obtain rfl : c = last := by simpa using hlast
    exact .inl ⟨rfl, htop⟩
  | c :: b :: rest =>
    obtain rfl : c = a := by simpa using hbegun
    rw [List.isChain_cons_cons] at hpassed
    refine .inr ⟨b, b :: rest, rfl, hpassed.1, (List.nodup_cons.mp hnodup).1, ?_⟩
    exact ⟨(List.nodup_cons.mp hnodup).2, hpassed.2, rfl, last, by simpa using hlast, htop⟩

/-- A climb passes what stands above its start. -/
theorem Climbed.mem_iff {nodes : List α} (h : Climbed above a nodes) :
    b ∈ nodes ↔ Relation.ReflTransGen (Step above) a b := by
  induction nodes generalizing a with
  | nil => cases h.begun
  | cons c rest ih =>
    rw [Relation.ReflTransGen.cases_head_iff]
    rcases h.cases with ⟨hnodes, htop⟩ | ⟨d, rest', hnodes, habove, -, hrest⟩
    · obtain ⟨rfl, rfl⟩ := List.cons.inj hnodes
      simp [Step, htop, eq_comm]
    · obtain ⟨rfl, rfl⟩ := List.cons.inj hnodes
      simp [Step, habove, ← ih hrest, eq_comm]

/-- The climb from a node on the way is the rest of the way. -/
lemma Climbed.suffix {nodes : List α} (h : Climbed above a nodes)
    (hreaches : Relation.ReflTransGen (Step above) a b) :
    ∃ rest, Climbed above b rest ∧ rest <:+ nodes := by
  induction hreaches with
  | refl => exact ⟨nodes, h, List.suffix_refl nodes⟩
  | tail _ hstep ih =>
    obtain ⟨rest, hrest, hsuffix⟩ := ih
    rcases hrest.cases with ⟨-, htop⟩ | ⟨c, rest', rfl, habove, -, hrest'⟩
    · simp [Step, htop] at hstep
    · obtain rfl := Option.some.inj (habove.symm.trans hstep)
      exact ⟨rest', hrest', (List.suffix_cons _ rest').trans hsuffix⟩

/-- A climb with an end meets no circle. -/
lemma Climbed.no_circle {nodes : List α} (h : Climbed above a nodes)
    (hreaches : Relation.ReflTransGen (Step above) a b) : ¬ Relation.TransGen (Step above) b b := by
  intro hcircle
  obtain ⟨c, hstep, hback⟩ := Relation.TransGen.head'_iff.mp hcircle
  obtain ⟨rest, hrest, -⟩ := h.suffix hreaches
  rcases hrest.cases with ⟨-, htop⟩ | ⟨d, rest', rfl, habove, hout, hrest'⟩
  · simp [Step, htop] at hstep
  · obtain rfl := Option.some.inj (habove.symm.trans hstep)
    exact hout (hrest'.mem_iff.mpr hback)

lemma Climbed.unique {nodes nodes' : List α} (h : Climbed above a nodes)
    (h' : Climbed above a nodes') : nodes = nodes' := by
  induction nodes generalizing a nodes' with
  | nil => cases h.begun
  | cons c rest ih =>
    rcases h.cases with ⟨hnodes, htop⟩ | ⟨b, rest₁, hnodes, habove, -, hrest⟩ <;>
      rcases h'.cases with ⟨hnodes', htop'⟩ | ⟨b', rest₂, hnodes', habove', -, hrest'⟩
    · rw [hnodes, hnodes']
    · simp [htop] at habove'
    · simp [habove] at htop'
    · obtain ⟨rfl, rfl⟩ := List.cons.inj hnodes
      obtain rfl : b = b' := Option.some.inj (habove.symm.trans habove')
      rw [hnodes', ih hrest hrest']

section

variable [DecidableEq α] {keys nodes : List α} (hkeys : ∀ a b, above a = some b → a ∈ keys)

/-- **A climb has an end** if and only if there are nodes up to one that has none above it. -/
theorem climb_eq_ok : climb above keys hkeys a = .ok nodes ↔ Climbed above a nodes := by
  unfold climb
  split
  · next nodes' hchain =>
    have hclimbed := chain_climbed climbing_start hchain
    rw [Except.ok.injEq]
    exact ⟨fun h => h ▸ hclimbed, fun h => hclimbed.unique h⟩
  · next b hchain =>
    refine ⟨nofun, fun h => ?_⟩
    have hcircle := again_of_chain climbing_start hchain
    exact absurd hcircle.2 (h.no_circle hcircle.1)
  · next hchain => exact absurd hchain (chain_ne_short hkeys .nil (List.nil_subset _) (by simp))

variable {hkeys} in
lemma circle_of_climb (h : climb above keys hkeys a = .error b) :
    Relation.ReflTransGen (Step above) a b ∧ Relation.TransGen (Step above) b b := by
  unfold climb at h
  split at h
  · cases h
  · next b' hchain =>
    obtain rfl := Except.error.inj h
    exact again_of_chain climbing_start hchain
  · next hchain => exact absurd hchain (chain_ne_short hkeys .nil (List.nil_subset _) (by simp))

end

end Workbench.Lib.Ancestry
