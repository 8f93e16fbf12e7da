import Mathlib.Data.Set.Finite.Lemmas
import Mathlib.Data.Set.Finite.List
import Workbench.Web.Mentions

/-!
Which agents are mentioned, and whether the order of the candidates matters.

A candidate should be found if at some `@` of the text its name is the longest that stands there. A
round looks for it in a text in which the mentions of the candidates before it are blanked. That
text has the same places as the original, less those that are blanked, unless the blanks bring new
ones about; and then each candidate is found at its own mentions.
-/

namespace Workbench.Web.Mentions

open List

variable {α : Type}

section Definitions

variable (upper : CodeUnit → CodeUnit) (nameOf : α → Text) (text : Text) (candidates : List α)

/-- The name of a candidate stands at a place, and no longer one does. -/
def Mention (c : α) (i : ℕ) : Prop :=
  Place upper (nameOf c) text i ∧
    ∀ d ∈ candidates, Place upper (nameOf d) text i → (nameOf d).length ≤ (nameOf c).length

/-- What the mentions of some candidates cover. -/
def covered (before : List α) : Set ℕ :=
  {j | ∃ d ∈ before, ∃ i, Mention upper nameOf text candidates d i ∧
    i ≤ j ∧ j ≤ i + (nameOf d).length}

/-- These candidates can be the ones that are tried before another one, if the candidates are listed
in some order: all that have a longer name, and any that have a name of the same length. -/
def TriedBefore (before : List α) (c : α) : Prop :=
  (c :: before) <+~ candidates ∧ (∀ d ∈ before, (nameOf c).length ≤ (nameOf d).length) ∧
    ∀ d ∈ candidates, (nameOf c).length < (nameOf d).length → d ∈ before

/-- No mention disturbs another one. -/
structure Undisturbed : Prop where
  /-- No mention is of an empty name. -/
  named : ∀ c ∈ candidates, ∀ i, Mention upper nameOf text candidates c i → nameOf c ≠ []
  /-- At no mention do two candidates share the name. -/
  distinct : ∀ c ∈ candidates, ∀ d ∈ candidates, ∀ i, Mention upper nameOf text candidates c i →
    Mention upper nameOf text candidates d i → c = d
  /-- No mention stands in another one. -/
  apart : ∀ c ∈ candidates, ∀ d ∈ candidates, ∀ i j, Mention upper nameOf text candidates c i →
    Mention upper nameOf text candidates d j → i < j → i + (nameOf c).length < j
  /-- No candidate is mentioned directly behind a mention of it. -/
  notBehind : ∀ c ∈ candidates, ∀ i, Mention upper nameOf text candidates c i →
    ¬ Mention upper nameOf text candidates c (i + (nameOf c).length + 1)
  /-- When what can be tried before a candidate is blanked, its name stands at no new place. -/
  noNew : ∀ c ∈ candidates, nameOf c ≠ [] → ∀ before, TriedBefore nameOf candidates before c →
    ∀ left, Blanks (covered upper nameOf text candidates before) text left →
      ∀ i, Place upper (nameOf c) left i → Place upper (nameOf c) text i

variable [DecidableEq α]

/-- The candidates that are found are those that are mentioned, in any order of the candidates. -/
def FindsMentioned : Prop :=
  (∀ c ∈ candidates, c ∈ mentionedAgents upper nameOf text candidates ↔
    ∃ i, Mention upper nameOf text candidates c i) ∧
  ∀ candidates', candidates' ~ candidates → ∀ c,
    c ∈ mentionedAgents upper nameOf text candidates' ↔
      c ∈ mentionedAgents upper nameOf text candidates

end Definitions

variable {upper : CodeUnit → CodeUnit} {nameOf : α → Text} {text left : Text}
  {candidates candidates' before after : List α} {c d : α} {i j : ℕ} {hits : Set ℕ}

/-- Where a name stands there is a mention. -/
lemma exists_mention (hc : c ∈ candidates) (h : Place upper (nameOf c) text i) :
    ∃ d ∈ candidates, Mention upper nameOf text candidates d i ∧
      (nameOf c).length ≤ (nameOf d).length := by
  have hfinite : {d | d ∈ candidates ∧ Place upper (nameOf d) text i}.Finite :=
    (List.finite_toSet candidates).subset fun _ hd => hd.1
  obtain ⟨d, ⟨hd, hplace⟩, hmax⟩ :=
    Set.exists_max_image _ (fun d => (nameOf d).length) hfinite ⟨c, hc, h⟩
  exact ⟨d, hd, ⟨hplace, fun e he hplace' => hmax e ⟨he, hplace'⟩⟩, hmax c ⟨hc, h⟩⟩

/-! ### Texts with one `@` -/

/-- Names of the same length that stand at one place are the same but for case. -/
lemma map_eq_of_place {name name' : Text} (h : Place upper name text i)
    (h' : Place upper name' text i) (hlength : name.length = name'.length) :
    name.map (canonicalize upper) = name'.map (canonicalize upper) := by
  obtain ⟨-, hname, -⟩ := stands_drop.1 h.2
  obtain ⟨-, hname', -⟩ := stands_drop.1 h'.2
  refine List.ext_getElem? fun k => ?_
  rw [List.getElem?_map, List.getElem?_map]
  rcases Nat.lt_or_ge k name.length with hk | hk
  · rw [← hname k hk, hname' k (hlength ▸ hk)]
  · rw [List.getElem?_eq_none hk, List.getElem?_eq_none (hlength ▸ hk)]

lemma undisturbed_of_one {p : ℕ} (hone : ∀ i, text[i]? = some atSign → i = p)
    (hnamed : ∀ c ∈ candidates, nameOf c ≠ [])
    (hdistinct : ∀ c ∈ candidates, ∀ d ∈ candidates,
      (nameOf c).map (canonicalize upper) = (nameOf d).map (canonicalize upper) → c = d) :
    Undisturbed upper nameOf text candidates where
  named := fun c hc _ _ => hnamed c hc
  distinct := by
    intro c hc d hd i hi hi'
    have hlength := Nat.le_antisymm (hi'.2 c hc hi.1) (hi.2 d hd hi'.1)
    exact hdistinct c hc d hd (map_eq_of_place hi.1 hi'.1 hlength)
  apart := by
    intro c _ d _ i j hi hj hlt
    have := hone i hi.1.at
    have := hone j hj.1.at
    omega
  notBehind := by
    intro c _ i hi hi'
    have := hone i hi.1.at
    have := hone _ hi'.1.at
    omega
  noNew := by
    intro c _ _ before _ left hblanks i hplace
    have huncovered := hblanks.not_mem hplace.at
    have hat : text[i]? = some atSign := by rw [← (hblanks i).2 huncovered, hplace.at]
    obtain rfl := hone i hat
    have hnone : ∀ j, j ∉ covered upper nameOf text candidates before := by
      rintro j ⟨d, hd, k, hk, -⟩
      obtain rfl := hone k hk.1.at
      exact huncovered ⟨d, hd, _, hk, le_rfl, by omega⟩
    obtain rfl : left = text := List.ext_getElem? fun j => (hblanks j).2 (hnone j)
    exact hplace

/-! ### One round -/

/-- In the remaining text the name of a candidate stands at its mentions only. -/
lemma mention_of_place (h : Undisturbed upper nameOf text candidates) (hc : c ∈ candidates)
    (hname : nameOf c ≠ []) (htried : TriedBefore nameOf candidates before c)
    (hblanks : Blanks (covered upper nameOf text candidates before) text left)
    (hplace : Place upper (nameOf c) left i) :
    Mention upper nameOf text candidates c i ∧ c ∉ before := by
  have htext : Place upper (nameOf c) text i :=
    h.noNew c hc hname before htried left hblanks i hplace
  have huncovered := hblanks.not_mem hplace.at
  obtain ⟨d, hd, hmention, hle⟩ := exists_mention hc htext
  have hlength : (nameOf d).length ≤ (nameOf c).length := by
    by_contra hlonger
    -- a longer name has been blanked here
    exact huncovered ⟨d, htried.2.2 d hd (not_le.mp hlonger), i, hmention, le_rfl, by omega⟩
  have hc' : Mention upper nameOf text candidates c i :=
    ⟨htext, fun e he hplace' => (hmention.2 e he hplace').trans hlength⟩
  exact ⟨hc', fun hbefore => huncovered ⟨c, hbefore, i, hc', le_rfl, by omega⟩⟩

/-- A mention of a candidate that has not been tried is not blanked. -/
lemma place_of_mention (h : Undisturbed upper nameOf text candidates) (hc : c ∈ candidates)
    (hsub : before ⊆ candidates)
    (hblanks : Blanks (covered upper nameOf text candidates before) text left)
    (hmention : Mention upper nameOf text candidates c i) (hnew : c ∉ before) :
    Place upper (nameOf c) left i := by
  refine hblanks.place hmention.1 ?_
  rintro j hj hj' ⟨d, hd, k, hk, hkj, hkj'⟩
  rcases Nat.lt_trichotomy i k with hik | rfl | hik
  · have := h.apart c hc d (hsub hd) i k hmention hk hik
    omega
  · exact hnew (h.distinct c hc d (hsub hd) i hmention hk ▸ hd)
  · have := h.apart d (hsub hd) c hc k i hk hmention hik
    omega

/-- **A round hits** the mentions of the candidate, if it has not been tried before. -/
lemma hits_eq (h : Undisturbed upper nameOf text candidates) (hc : c ∈ candidates)
    (hname : nameOf c ≠ []) (htried : TriedBefore nameOf candidates before c)
    (hblanks : Blanks (covered upper nameOf text candidates before) text left) {left' : Text}
    (hscanned : Scanned upper (nameOf c) true left left' hits) :
    i ∈ hits ↔ Mention upper nameOf text candidates c i ∧ c ∉ before := by
  have hmention {i : ℕ} (hi : i ∈ hits) :=
    mention_of_place h hc hname htried hblanks (hscanned.places i hi)
  refine ⟨hmention, fun ⟨hi, hnew⟩ => ?_⟩
  have hsub : before ⊆ candidates := fun d hd => htried.1.subset (List.mem_cons_of_mem c hd)
  obtain ⟨j, hj, hle, hle'⟩ := hscanned.near i (place_of_mention h hc hsub hblanks hi hnew)
  rcases Nat.lt_or_eq_of_le hle with hlt | rfl
  · have hapart := h.apart c hc c hc j i (hmention hj).1 hi hlt
    obtain rfl : i = j + (nameOf c).length + 1 := by omega
    exact absurd hi (h.notBehind c hc j (hmention hj).1)
  · exact hj

/-! ### All rounds -/

/-- What is known when some candidates have been tried. -/
structure Tried (upper : CodeUnit → CodeUnit) (nameOf : α → Text) (text : Text)
    (candidates before : List α) (state : Text × List α) : Prop where
  blanks : Blanks (covered upper nameOf text candidates before) text state.1
  found : ∀ d, d ∈ state.2 ↔ d ∈ before ∧ ∃ i, Mention upper nameOf text candidates d i

/-- A round blanks the mentions of the candidate, and finds it if it has one. -/
lemma round_spec (h : Undisturbed upper nameOf text candidates) (hc : c ∈ candidates)
    (htried : TriedBefore nameOf candidates before c) {state : Text × List α}
    (hblanks : Blanks (covered upper nameOf text candidates before) text state.1) :
    ∃ hits, Blanks (tokens (nameOf c).length hits) state.1
        (tryCandidate upper nameOf state c).1 ∧
      (∀ d, d ∈ (tryCandidate upper nameOf state c).2 ↔ d ∈ state.2 ∨ d = c ∧ hits.Nonempty) ∧
      ∀ i, i ∈ hits ↔ Mention upper nameOf text candidates c i ∧ c ∉ before := by
  by_cases hname : nameOf c = []
  · rw [tryCandidate_of_empty hname]
    refine ⟨∅, blanks_self, by simp, fun i => iff_of_false (Set.notMem_empty i) ?_⟩
    exact fun hi => h.named c hc i hi.1 hname
  · obtain ⟨hits, hscanned, hfound⟩ := @tryCandidate_spec upper α nameOf c state hname
    exact ⟨hits, hscanned.blanks, hfound, fun i => hits_eq h hc hname htried hblanks hscanned⟩

/-- Blanking the mentions of a candidate once is enough. -/
lemma covered_hits
    (hhits : ∀ i, i ∈ hits ↔ Mention upper nameOf text candidates c i ∧ c ∉ before) :
    covered upper nameOf text candidates (before ++ [c]) =
      covered upper nameOf text candidates before ∪ tokens (nameOf c).length hits := by
  ext j
  constructor
  · rintro ⟨d, hd, i, hi, hle⟩
    by_cases hbefore : d ∈ before
    · exact .inl ⟨d, hbefore, i, hi, hle⟩
    · obtain rfl : d = c := by simpa [hbefore] using hd
      exact .inr ⟨i, (hhits i).mpr ⟨hi, hbefore⟩, hle⟩
  · rintro (⟨d, hd, i, hi, hle⟩ | ⟨i, hi, hle⟩)
    · exact ⟨d, List.mem_append_left _ hd, i, hi, hle⟩
    · exact ⟨c, List.mem_append_right _ List.mem_cons_self, i, ((hhits i).mp hi).1, hle⟩

lemma tried_step (h : Undisturbed upper nameOf text candidates) (hc : c ∈ candidates)
    (htried : TriedBefore nameOf candidates before c) {state : Text × List α}
    (hstate : Tried upper nameOf text candidates before state) :
    Tried upper nameOf text candidates (before ++ [c]) (tryCandidate upper nameOf state c) := by
  obtain ⟨hits, hblanks, hfound, hhits⟩ := round_spec h hc htried hstate.blanks
  constructor
  · rw [covered_hits hhits]
    exact hstate.blanks.trans hblanks
  · intro d
    rw [hfound, hstate.found, List.mem_append, List.mem_singleton]
    constructor
    · rintro (⟨hd, hi⟩ | ⟨rfl, i, hi⟩)
      · exact ⟨.inl hd, hi⟩
      · exact ⟨.inr rfl, i, ((hhits i).mp hi).1⟩
    · rintro ⟨hd, i, hi⟩
      by_cases hbefore : d ∈ before
      · exact .inl ⟨hbefore, i, hi⟩
      · obtain rfl := hd.resolve_left hbefore
        exact .inr ⟨rfl, i, (hhits i).mpr ⟨hi, hbefore⟩⟩

lemma triedBefore_of_byLength (hp : candidates' ~ candidates)
    (hsplit : byLength nameOf candidates' = before ++ c :: after) :
    TriedBefore nameOf candidates before c := by
  have hperm : c :: (before ++ after) ~ candidates :=
    (List.perm_middle.symm.trans (hsplit ▸ perm_byLength)).trans hp
  have hsorted := @pairwise_byLength α nameOf candidates'
  rw [hsplit, List.pairwise_append] at hsorted
  refine ⟨?_, fun d hd => hsorted.2.2 d hd c List.mem_cons_self, fun d hd hlonger => ?_⟩
  · have hsub : (c :: before) <+ c :: (before ++ after) :=
      (List.sublist_append_left before after).cons_cons c
    exact hsub.subperm.trans hperm.subperm
  · have hmem := hperm.mem_iff.mpr hd
    rcases List.mem_cons.mp hmem with rfl | hmem
    · omega
    · rcases List.mem_append.mp hmem with hbefore | hafter
      · exact hbefore
      · have := (List.pairwise_cons.mp hsorted.2.1).1 d hafter
        omega

/-- The rounds over any number of candidates, in the order in which they are tried. -/
lemma tried_foldl (h : Undisturbed upper nameOf text candidates) (hp : candidates' ~ candidates)
    (hsplit : byLength nameOf candidates' = before ++ after) :
    Tried upper nameOf text candidates before
      (before.foldl (tryCandidate upper nameOf) (text, [])) := by
  induction before using List.reverseRecOn generalizing after with
  | nil =>
    have hcovered : covered upper nameOf text candidates [] = ∅ :=
      Set.eq_empty_iff_forall_notMem.mpr fun j ⟨d, hd, _⟩ => List.not_mem_nil hd
    refine ⟨?_, by simp⟩
    rw [hcovered]
    exact fun j => ⟨fun hj => absurd hj (Set.notMem_empty j), fun _ => rfl⟩
  | append_singleton before c ih =>
    -- the rounds before are of a shorter beginning of the same order
    rw [List.append_assoc, List.singleton_append] at hsplit
    have htried := triedBefore_of_byLength hp hsplit
    rw [List.foldl_append, List.foldl_cons, List.foldl_nil]
    exact tried_step h (htried.1.subset List.mem_cons_self) htried (ih hsplit)

end Workbench.Web.Mentions
