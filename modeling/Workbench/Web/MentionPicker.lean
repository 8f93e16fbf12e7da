import Mathlib.Data.List.DropRight
import Workbench.Lib.StableSort
import Workbench.Web.Mentions

/-!
The mention that is being typed.

Picking an agent puts its name behind the `@` and a blank behind the name, so the name stands there
in the text that results. It is found there if the rounds before it leave the place as it is. Those
that do not are of names that stand at the same `@` or reach into each other over an `@`.
-/

namespace Workbench.Web.Mentions

open List Workbench.Lib

structure ActiveMention where
  start : ℕ
  query : Text
  deriving DecidableEq

/-- The `@` is the last unit in front of the query. -/
def activeMention (text : Text) (caret : ℕ) : Option ActiveMention :=
  let before := text.take caret
  let query := before.rtakeWhile isNameUnit
  match (before.rdropWhile isNameUnit).reverse with
  | [] => none
  | u :: front =>
    if u = atSign ∧ front.head?.all isLead then some ⟨caret - query.length - 1, query⟩ else none

def applyMention (text : Text) (mention : ActiveMention) (name : Text) (caret : ℕ) : Text × ℕ :=
  let token := atSign :: (name ++ [space])
  (text.take mention.start ++ token ++ text.drop caret, mention.start + token.length)

variable {α : Type} {upper : CodeUnit → CodeUnit} {nameOf : α → Text} {text left name : Text}
  {candidates before after : List α} {mention : ActiveMention} {c d : α} {i s caret : ℕ}
  {state : Text × List α}

/-! ### The inserted name -/

/-- The `@` of the mention is where a mention can start. -/
lemma activeMention_spec (hcaret : caret ≤ text.length)
    (h : activeMention text caret = some mention) :
    mention.start ≤ text.length ∧ ∀ u ∈ (text.take mention.start).getLast?, isLead u := by
  have hsplit := List.rdropWhile_append_rtakeWhile (p := isNameUnit) (l := text.take caret)
  rw [activeMention] at h
  split at h
  · exact absurd h (by simp)
  · next u front hreverse =>
    rw [Option.ite_none_right_eq_some] at h
    obtain ⟨⟨-, hlead⟩, hsome⟩ := h
    obtain rfl := Option.some.inj hsome
    rw [List.reverse_eq_iff] at hreverse
    rw [hreverse, List.reverse_cons] at hsplit
    have hlength := congrArg List.length hsplit
    simp only [List.length_append, List.length_reverse, List.length_singleton, List.length_take]
      at hlength
    have hstart : caret - ((text.take caret).rtakeWhile isNameUnit).length - 1 =
        front.reverse.length := by
      rw [List.length_reverse]
      omega
    have htake : text.take front.reverse.length = front.reverse := by
      have hle : front.reverse.length ≤ caret := by
        rw [List.length_reverse]
        omega
      have htwice := List.take_take (i := front.reverse.length) (j := caret) (l := text)
      rw [Nat.min_eq_left hle, ← hsplit, List.append_assoc, List.take_left' rfl] at htwice
      exact htwice.symm
    simp only [hstart, htake, List.getLast?_reverse]
    refine ⟨?_, fun u hu => ?_⟩
    · rw [List.length_reverse]
      omega
    · rw [Option.mem_def] at hu
      simpa [hu] using hlead

/-- **The name that is inserted stands where the mention starts**, and a blank behind it. -/
lemma place_applyMention (hcaret : caret ≤ text.length)
    (h : activeMention text caret = some mention) :
    Place upper name (applyMention text mention name caret).1 mention.start ∧
      (applyMention text mention name caret).1[mention.start + 1 + name.length]? = some space := by
  obtain ⟨hstart, hlead⟩ := activeMention_spec hcaret h
  have hlength : (text.take mention.start).length = mention.start := List.length_take_of_le hstart
  have happly : (applyMention text mention name caret).1 =
      text.take mention.start ++ (atSign :: (name ++ space :: text.drop caret)) := by
    simp [applyMention]
  have hget (k : ℕ) : (applyMention text mention name caret).1[mention.start + k]? =
      (atSign :: (name ++ space :: text.drop caret))[k]? := by
    rw [happly, List.getElem?_append_right (by omega), hlength, Nat.add_sub_cancel_left]
  have hspace : (applyMention text mention name caret).1[mention.start + 1 + name.length]? =
      some space := by
    rw [Nat.add_assoc, hget, Nat.add_comm, List.getElem?_cons_succ,
      List.getElem?_append_right le_rfl, Nat.sub_self]
    rfl
  refine ⟨⟨?_, stands_drop.2 ⟨hget 0, fun k hk => ?_, ?_⟩⟩, hspace⟩
  · rcases Nat.eq_zero_or_pos mention.start with hzero | hpos
    · exact .inl ⟨hzero, rfl⟩
    · -- the unit in front of the `@` is one of the text that is kept
      obtain ⟨j, hj⟩ := Nat.exists_eq_add_one.mpr hpos
      have hlast : (text.take mention.start).getLast? = (text.take mention.start)[j]? := by
        rw [List.getLast?_eq_getElem?, hlength, hj, Nat.add_sub_cancel]
      have hj' : j < (text.take mention.start).length := by omega
      rw [hlast, List.getElem?_eq_getElem hj'] at hlead
      refine .inr ⟨j, hj, _, ?_, hlead _ rfl⟩
      rw [happly, List.getElem?_append_left hj', List.getElem?_eq_getElem hj']
      rfl
  · rw [Nat.add_assoc, hget, Nat.add_comm 1 k, List.getElem?_cons_succ,
      List.getElem?_append_left hk]
  · intro u hu
    rw [hspace] at hu
    obtain rfl := Option.some.inj hu
    decide

/-! ### The rounds before -/

/-- The name of a candidate can take the place of another name: it is that name, or that name and a
blank and more, or one of the two has an `@` in it. -/
def Takes (upper : CodeUnit → CodeUnit) (taking name : Text) : Prop :=
  taking.map (canonicalize upper) = name.map (canonicalize upper) ∨
    (name ++ [space]).map (canonicalize upper) <+: taking.map (canonicalize upper) ∨
    atSign ∈ taking ∨ atSign ∈ name

/-- The unit of a name at a place of it. -/
lemma getElem?_of_place (h : Place upper name text i) {k : ℕ} (hk : k < name.length) :
    (text[i + 1 + k]?).map (canonicalize upper) = (name[k]?).map (canonicalize upper) :=
  (stands_drop.1 h.2).2.1 k hk

lemma atSign_mem_of_place (h : Place upper name text i) {k : ℕ} (hk : k < name.length)
    (hat : text[i + 1 + k]? = some atSign) : atSign ∈ name := by
  have hname := getElem?_of_place h hk
  rw [hat, List.getElem?_eq_getElem hk, Option.map_some, Option.map_some,
    canonicalize_eq_atSign.2 rfl] at hname
  have hunit := canonicalize_eq_atSign.1 (Option.some.inj hname).symm
  exact hunit ▸ List.getElem_mem hk

/-- **A name that reaches into a place** where another stands can take it. -/
lemma takes_of_overlap {taking : Text} (hplace : Place upper name text s)
    (hspace : text[s + 1 + name.length]? = some space) (htaking : Place upper taking text i)
    (hlength : name.length ≤ taking.length) {j : ℕ} (hi : i ≤ j) (hi' : j ≤ i + taking.length)
    (hj : s ≤ j) (hj' : j ≤ s + name.length) : Takes upper taking name := by
  rcases Nat.lt_trichotomy i s with his | rfl | his
  · -- the `@` of the place is in the other name
    obtain ⟨k, rfl⟩ := Nat.exists_eq_add_of_lt his
    refine .inr (.inr (.inl (atSign_mem_of_place htaking (k := k) (by omega) ?_)))
    rw [Nat.add_right_comm]
    exact hplace.at
  · have hsame : ∀ k < name.length, (taking[k]?).map (canonicalize upper) =
        (name[k]?).map (canonicalize upper) := fun k hk => by
      rw [← getElem?_of_place htaking (lt_of_lt_of_le hk hlength), getElem?_of_place hplace hk]
    rcases Nat.eq_or_lt_of_le hlength with heq | hlt
    · left
      refine List.ext_getElem? fun k => ?_
      rw [List.getElem?_map, List.getElem?_map]
      rcases Nat.lt_or_ge k name.length with hk | hk
      · exact hsame k hk
      · rw [List.getElem?_eq_none hk, List.getElem?_eq_none (heq ▸ hk)]
    · right; left
      refine List.prefix_iff_getElem?.mpr fun k hk => ?_
      rw [← List.getElem?_eq_getElem hk, List.getElem?_map, List.getElem?_map]
      rcases Nat.lt_or_ge k name.length with hk' | hk'
      · rw [List.getElem?_append_left hk', hsame k hk']
      · obtain rfl : k = name.length := by
          simp only [List.length_map, List.length_append, List.length_singleton] at hk
          omega
        rw [← getElem?_of_place htaking hlt, hspace, List.getElem?_append_right le_rfl,
          Nat.sub_self]
        rfl
  · -- the other name's `@` is in the name
    obtain ⟨k, rfl⟩ := Nat.exists_eq_add_of_lt his
    refine .inr (.inr (.inr (atSign_mem_of_place hplace (k := k) (by omega) ?_)))
    rw [Nat.add_right_comm]
    exact htaking.at

/-- While other candidates are tried, the place of a name is as it was, or one of them that can take
it has been found. -/
structure Kept (upper : CodeUnit → CodeUnit) (name : Text) (s : ℕ) (left : Text) : Prop where
  place : Place upper name left s
  space : left[s + 1 + name.length]? = some space

lemma kept_step (hname : nameOf d ≠ []) (hlength : name.length ≤ (nameOf d).length)
    (h : Kept upper name s state.1) :
    Kept upper name s (tryCandidate upper nameOf state d).1 ∨
      d ∈ (tryCandidate upper nameOf state d).2 ∧ Takes upper (nameOf d) name := by
  obtain ⟨hits, hscanned, hfound⟩ := @tryCandidate_spec upper α nameOf d state hname
  by_cases hclear : ∀ j, s ≤ j → j ≤ s + name.length → j ∉ tokens (nameOf d).length hits
  · refine .inl ⟨hscanned.blanks.place h.place hclear, ?_⟩
    by_cases hj : s + 1 + name.length ∈ tokens (nameOf d).length hits
    · rw [(hscanned.blanks _).1 hj, h.space]
      rfl
    · rw [(hscanned.blanks _).2 hj, h.space]
  · push Not at hclear
    obtain ⟨j, hj, hj', i, hi, hle, hle'⟩ := hclear
    exact .inr ⟨(hfound d).mpr (.inr ⟨rfl, i, hi⟩),
      takes_of_overlap h.place h.space (hscanned.places i hi) hlength hle hle' hj hj'⟩

lemma found_mono (h : d ∈ state.2) : d ∈ (tryCandidate upper nameOf state c).2 := by
  by_cases hname : nameOf c = []
  · rwa [tryCandidate_of_empty hname]
  · obtain ⟨hits, -, hfound⟩ := @tryCandidate_spec upper α nameOf c state hname
    exact (hfound d).mpr (.inl h)

lemma found_mono_foldl (h : d ∈ state.2) :
    d ∈ (before.foldl (tryCandidate upper nameOf) state).2 := by
  induction before generalizing state with
  | nil => exact h
  | cons c before ih => exact ih (found_mono h)

lemma kept_foldl (hne : name ≠ []) (hlength : ∀ d ∈ before, name.length ≤ (nameOf d).length)
    (h : Kept upper name s state.1) :
    Kept upper name s (before.foldl (tryCandidate upper nameOf) state).1 ∨
      ∃ d ∈ before, d ∈ (before.foldl (tryCandidate upper nameOf) state).2 ∧
        Takes upper (nameOf d) name := by
  induction before generalizing state with
  | nil => exact .inl h
  | cons d before ih =>
    have hle := hlength d List.mem_cons_self
    have hname : nameOf d ≠ [] := by
      rintro hnil
      rw [hnil, List.length_nil] at hle
      exact hne (List.length_eq_zero_iff.mp (Nat.le_zero.mp hle))
    rcases kept_step hname hle h with hkept | ⟨hfound, htakes⟩
    · have hrest := ih (fun e he => hlength e (List.mem_cons_of_mem d he)) hkept
      rcases hrest with hkept | ⟨e, he, hrest⟩
      · exact .inl hkept
      · exact .inr ⟨e, List.mem_cons_of_mem d he, hrest⟩
    · refine .inr ⟨d, List.mem_cons_self, ?_, htakes⟩
      rw [List.foldl_cons]
      exact found_mono_foldl hfound

/-- One candidate is tried before another: its name is longer, or as long and it is listed first. -/
def TriedFirst (nameOf : α → Text) (candidates : List α) (d c : α) : Prop :=
  (nameOf c).length < (nameOf d).length ∨
    (nameOf c).length = (nameOf d).length ∧ [d, c] <+ candidates

lemma triedFirst_of_byLength (hsplit : byLength nameOf candidates = before ++ c :: after)
    (hd : d ∈ before) : TriedFirst nameOf candidates d c := by
  have hsorted := @pairwise_byLength α nameOf candidates
  rw [hsplit, List.pairwise_append] at hsorted
  rcases Nat.lt_or_eq_of_le (hsorted.2.2 d hd c List.mem_cons_self) with hlt | heq
  · exact .inl hlt
  · refine .inr ⟨heq, ?_⟩
    -- candidates of one length keep the order in which they are listed
    have hfilter := StableSort.filter_insertionSort
      (r := fun a b : α => (nameOf b).length ≤ (nameOf a).length)
      (p := fun a => (nameOf a).length = (nameOf c).length)
      (fun a b ha hb => by simp only [decide_eq_true_eq] at ha hb; omega) candidates
    rw [← byLength, hsplit, List.filter_append, List.filter_cons_of_pos (by simp)] at hfilter
    have hpair : [d] ++ [c] <+ before.filter (fun a => (nameOf a).length = (nameOf c).length) ++
        c :: after.filter (fun a => (nameOf a).length = (nameOf c).length) := by
      refine List.Sublist.append ?_ (List.singleton_sublist.mpr List.mem_cons_self)
      exact List.singleton_sublist.mpr (List.mem_filter.mpr ⟨hd, by simp [heq]⟩)
    rw [hfilter] at hpair
    exact hpair.trans List.filter_sublist

end Workbench.Web.Mentions
