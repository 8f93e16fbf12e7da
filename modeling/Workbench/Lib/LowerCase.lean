import Workbench.Lib.NumberText
import Workbench.Lib.Regex

/-!
Lower case, as the Unicode default algorithm gives it.

What a character becomes can depend on what stands around it: a capital sigma is written in another
way at the end of a word, and some languages have more such rules. None of them looks past a space.
-/

namespace Workbench.Lib

open Workbench.Lib.NumberText (isTrimmed)

/-- What a character becomes between the text before it, which is written backwards, and the text
after it. -/
structure CaseRules where
  map (before : List Char) (c : Char) (after : List Char) : List Char
  map_blank : ∀ before c after, isTrimmed c → map before c after = [c]
  space_before : ∀ before more c after, map (before ++ ' ' :: more) c after = map before c after
  space_after : ∀ before c after more, map before c (after ++ ' ' :: more) = map before c after

namespace CaseRules

variable (R : CaseRules) {before cs rest : List Char}

def lowerFrom (before : List Char) : List Char → List Char
  | [] => []
  | c :: cs => R.map before c cs ++ lowerFrom (c :: before) cs

def lower (cs : List Char) : List Char := R.lowerFrom [] cs

lemma lowerFrom_append : R.lowerFrom before (cs ++ ' ' :: rest) =
    R.lowerFrom before cs ++ R.lowerFrom (cs.reverse ++ before) (' ' :: rest) := by
  induction cs generalizing before with
  | nil => rfl
  | cons c cs ih =>
    rw [List.cons_append, lowerFrom, lowerFrom, R.space_after, ih, List.reverse_cons,
      List.append_assoc, List.append_assoc, List.singleton_append]

lemma lowerFrom_behind_space (more : List Char) :
    R.lowerFrom (before ++ ' ' :: more) cs = R.lowerFrom before cs := by
  induction cs generalizing before with
  | nil => rfl
  | cons c cs ih =>
    rw [lowerFrom, lowerFrom, R.space_before, ← List.cons_append, ih]

/-- **A space separates** what is written in lower case before it and after it. -/
theorem lower_space : R.lower (cs ++ ' ' :: rest) = R.lower cs ++ ' ' :: R.lower rest := by
  have hbehind : R.lowerFrom ([] ++ ' ' :: (cs.reverse ++ [])) rest = R.lowerFrom [] rest :=
    R.lowerFrom_behind_space _
  rw [List.nil_append] at hbehind
  rw [lower, lowerFrom_append, lowerFrom, R.map_blank _ _ _ (by decide), hbehind]
  rfl

end CaseRules

/-- The tables of the algorithm that no language changes. -/
structure CaseTables where
  lowerOf : Char → List Char
  isCased : Char → Bool
  isCaseIgnorable : Char → Bool
  lowerOf_blank : ∀ c, isTrimmed c → lowerOf c = [c]
  blank_not_cased : ∀ c, isTrimmed c → isCased c = false
  space_not_ignorable : isCaseIgnorable ' ' = false

namespace CaseTables

variable (T : CaseTables) {before before' after after' cs rest blanks : List Char} {c : Char}

/-- Some case-ignorable characters, and then a cased one. -/
def seesCased : List Char → Bool
  | [] => false
  | c :: cs => T.isCased c || (T.isCaseIgnorable c && seesCased cs)

/-- `Final_Sigma`: there is a letter before, and none after. -/
def isFinal (before after : List Char) : Bool := T.seesCased before && !T.seesCased after

def mapChar (before : List Char) (c : Char) (after : List Char) : List Char :=
  if c = 'Σ' then [if T.isFinal before after then 'ς' else 'σ'] else T.lowerOf c

lemma seesCased_append : T.seesCased (cs ++ rest) =
    (T.seesCased cs || (cs.all T.isCaseIgnorable && T.seesCased rest)) := by
  induction cs with
  | nil => simp [seesCased]
  | cons c cs ih =>
    rw [List.cons_append, seesCased, ih, seesCased, List.all_cons]
    cases T.isCased c <;> cases T.isCaseIgnorable c <;> simp

lemma seesCased_space : T.seesCased (cs ++ ' ' :: rest) = T.seesCased cs := by
  rw [seesCased_append, seesCased, T.blank_not_cased ' ' (by decide), T.space_not_ignorable]
  simp

lemma seesCased_blanks (h : ∀ c ∈ blanks, isTrimmed c) :
    T.seesCased (cs ++ blanks) = T.seesCased cs := by
  have hnone : T.seesCased blanks = false := by
    induction blanks with
    | nil => rfl
    | cons c blanks ih =>
      obtain ⟨hc, hblanks⟩ := List.forall_mem_cons.mp h
      simp [seesCased, T.blank_not_cased c hc, ih hblanks]
  simp [seesCased_append, hnone]

lemma mapChar_congr (hbefore : T.seesCased before = T.seesCased before')
    (hafter : T.seesCased after = T.seesCased after') :
    T.mapChar before c after = T.mapChar before' c after' := by
  rw [mapChar, mapChar, isFinal, isFinal, hbefore, hafter]

lemma mapChar_of_lowerOf (h : T.lowerOf c = [c]) (hc : c ≠ 'Σ') :
    T.mapChar before c after = [c] := by
  rw [mapChar, if_neg hc, h]

/-- The rules of a language that adds none. -/
def rules : CaseRules where
  map := T.mapChar
  map_blank before c after h := T.mapChar_of_lowerOf (T.lowerOf_blank c h) (by rintro rfl; cases h)
  space_before before more c after := T.mapChar_congr T.seesCased_space rfl
  space_after before c after more := T.mapChar_congr rfl T.seesCased_space

/-- White space at the ends of a text stays, and changes nothing between. -/
theorem lower_inside (hbefore : ∀ c ∈ before, isTrimmed c) (hafter : ∀ c ∈ after, isTrimmed c) :
    T.rules.lower (before ++ cs ++ after) = before ++ T.rules.lower cs ++ after := by
  have hblank : ∀ (blanks front : List Char), (∀ c ∈ blanks, isTrimmed c) → ∀ text,
      T.rules.lowerFrom front (blanks ++ text) =
        blanks ++ T.rules.lowerFrom (blanks.reverse ++ front) text := by
    intro blanks
    induction blanks with
    | nil => exact fun front _ text => rfl
    | cons c blanks ih =>
      intro front h text
      obtain ⟨hc, hblanks⟩ := List.forall_mem_cons.mp h
      rw [List.cons_append, CaseRules.lowerFrom, T.rules.map_blank _ _ _ hc, ih _ hblanks,
        List.reverse_cons, List.append_assoc]
      rfl
  have hinside : ∀ (cs front : List Char), T.rules.lowerFrom (front ++ before.reverse)
      (cs ++ after) = T.rules.lowerFrom front cs ++ after := by
    intro cs
    induction cs with
    | nil =>
      intro front
      have hend := hblank after (front ++ before.reverse) hafter []
      simpa [CaseRules.lowerFrom] using hend
    | cons c cs ih =>
      intro front
      have hmap : T.rules.map (front ++ before.reverse) c (cs ++ after) =
          T.rules.map front c cs := by
        have hreverse : ∀ d ∈ before.reverse, isTrimmed d := fun d hd =>
          hbefore d (List.mem_reverse.mp hd)
        exact T.mapChar_congr (T.seesCased_blanks hreverse) (T.seesCased_blanks hafter)
      have hrest := ih (c :: front)
      rw [List.cons_append] at hrest
      rw [List.cons_append, CaseRules.lowerFrom, hmap, hrest, CaseRules.lowerFrom,
        List.append_assoc]
  have hfront := hblank before [] hbefore (cs ++ after)
  have hmiddle := hinside cs []
  rw [List.nil_append] at hmiddle
  rw [CaseRules.lower, List.append_assoc, hfront, List.append_nil, hmiddle, CaseRules.lower,
    List.append_assoc]

/-- The tables as far as ASCII goes. -/
def ascii : CaseTables where
  lowerOf c := if c.isUpper then [c.toLower] else [c]
  isCased c := c.isAlpha
  isCaseIgnorable c := c = '\''
  lowerOf_blank c h := if_neg fun hupper => by
    simp [NumberText.isTrimmed_of_isAlpha (Regex.isAlpha_iff.2 (.inl hupper))] at h
  blank_not_cased c h := by
    by_contra hcased
    simp [NumberText.isTrimmed_of_isAlpha (Bool.not_eq_false _ ▸ hcased)] at h
  space_not_ignorable := by decide

example : ascii.rules.lower "AΣ. AΣA".toList = "aς. aσa".toList := by decide

end CaseTables

end Workbench.Lib
