import Workbench.DeferredTools.Match

/-!
What a name pattern matches.

The pattern is compiled to a regular expression in which a star stands for any run of characters
within a line. So the names that fit the pattern and go over several lines are not matched where a
star would have to take the end of a line.
-/

namespace Workbench.DeferredTools

open Workbench.Lib Workbench.Lib.Regex

variable (U : Unicode)

/-- The pieces stand in the name one after the other, compared without regard to case, with a run
of characters between each two of them, and nothing else stands in it. -/
def FitsPieces : List (List Char) → List Char → Prop
  | [], _ => False
  | [piece], name => name.map U.fold = piece.map U.fold
  | piece :: next :: pieces, name => ∃ front run back, name = front ++ run ++ back ∧
      front.map U.fold = piece.map U.fold ∧ FitsPieces (next :: pieces) back

/-- The number of line ends in a text. -/
def lineEnds (cs : List Char) : ℕ := cs.countP fun c => !isInLine c

/-- The name fits the pattern, with runs of these characters for the stars. -/
def Fits (inRun : Char → Prop) : List Char → List Char → Prop
  | [], name => name = []
  | c :: cs, name =>
    if c = '*' then ∃ run back, name = run ++ back ∧ (∀ d ∈ run, inRun d) ∧ Fits inRun cs back
    else ∃ d back, name = d :: back ∧ U.fold d = U.fold c ∧ Fits inRun cs back

variable {U} {inRun : Char → Prop} {c : Char} {cs name piece : List Char}
  {pieces : List (List Char)}

lemma fits_star : Fits U inRun ('*' :: cs) name ↔
    ∃ run back, name = run ++ back ∧ (∀ d ∈ run, inRun d) ∧ Fits U inRun cs back := by
  rw [Fits, if_pos rfl]

lemma fits_literal (h : c ≠ '*') : Fits U inRun (c :: cs) name ↔
    ∃ d back, name = d :: back ∧ U.fold d = U.fold c ∧ Fits U inRun cs back := by
  rw [Fits, if_neg h]

/-! ### The regular expression -/

/-- The expression finds the names that fit with runs within a line. -/
lemma exists_mem_ends_iff (cs : List Char) (p : Place) :
    (∃ q, q ∈ (seqs (cs.map (patternPart U) ++ [finish])).ends p) ↔
      Fits U (isInLine ·) cs p.after := by
  induction cs generalizing p with
  | nil =>
    simp only [List.map_nil, List.nil_append, seqs, mem_ends_seq, mem_ends_empty, Fits]
    constructor
    · rintro ⟨q, x, hx, -⟩
      exact List.isEmpty_iff.mp (mem_look.1 hx).2
    · intro h
      exact ⟨p, p, mem_look.2 ⟨rfl, List.isEmpty_iff.mpr h⟩, rfl⟩
  | cons c cs ih =>
    rw [List.map_cons, List.cons_append, seqs]
    simp only [mem_ends_seq]
    by_cases hc : c = '*'
    · subst hc
      rw [fits_star]
      constructor
      · rintro ⟨q, x, hx, hq⟩
        obtain ⟨run, hrun, hall⟩ := mem_ends_star_one hx
        exact ⟨run, x.after, hrun.after, hall, (ih x).mp ⟨q, hq⟩⟩
      · rintro ⟨run, back, hname, hall, hback⟩
        have hspans : Spans p run ⟨run.reverse ++ p.before, back⟩ := ⟨hname, rfl⟩
        obtain ⟨q, hq⟩ := (ih ⟨run.reverse ++ p.before, back⟩).mpr hback
        exact ⟨q, _, mem_ends_star_one_of_spans hspans hall, hq⟩
    · rw [fits_literal hc, patternPart, if_neg hc]
      constructor
      · rintro ⟨q, x, hx, hq⟩
        obtain ⟨d, hd, hspans⟩ := mem_ends_one.1 hx
        exact ⟨d, x.after, hspans.after, of_decide_eq_true hd, (ih x).mp ⟨q, hq⟩⟩
      · rintro ⟨d, back, hname, hd, hback⟩
        have hspans : Spans p [d] ⟨d :: p.before, back⟩ := ⟨hname, rfl⟩
        obtain ⟨q, hq⟩ := (ih ⟨d :: p.before, back⟩).mpr hback
        exact ⟨q, _, mem_ends_one.2 ⟨d, decide_eq_true hd, hspans⟩, hq⟩

lemma matchesNamePattern_iff_fits {name pattern : String} :
    matchesNamePattern U name pattern ↔ Fits U (isInLine ·) pattern.toList name.toList := by
  have hsome : matchesNamePattern U name pattern ↔
      ∃ q, q ∈ (patternRegex U pattern).ends ⟨[], name.toList⟩ := by
    rw [matchesNamePattern, Bool.not_eq_true', List.isEmpty_eq_false_iff_exists_mem]
  have hstart : ∀ q, q ∈ (patternRegex U pattern).ends ⟨[], name.toList⟩ ↔
      q ∈ (seqs (pattern.toList.map (patternPart U) ++ [finish])).ends ⟨[], name.toList⟩ := by
    intro q
    rw [patternRegex, seqs, mem_ends_seq]
    constructor
    · rintro ⟨x, hx, hq⟩
      obtain ⟨rfl, -⟩ := mem_look.1 hx
      exact hq
    · exact fun hq => ⟨_, mem_look.2 ⟨rfl, rfl⟩, hq⟩
  rw [hsome]
  simp only [hstart]
  exact exists_mem_ends_iff pattern.toList ⟨[], name.toList⟩

/-! ### The pieces -/

/-- A piece that begins with a character stands in a name that does. -/
lemma fitsPieces_cons : FitsPieces U ((c :: piece) :: pieces) name ↔
    ∃ d back, name = d :: back ∧ U.fold d = U.fold c ∧ FitsPieces U (piece :: pieces) back := by
  cases pieces with
  | nil =>
    simp only [FitsPieces, List.map_cons, List.map_eq_cons_iff]
  | cons next pieces =>
    simp only [FitsPieces, List.map_cons, List.map_eq_cons_iff]
    constructor
    · rintro ⟨_, run, back, rfl, ⟨d, front, rfl, hd, hfront⟩, hback⟩
      exact ⟨d, front ++ run ++ back, rfl, hd, front, run, back, rfl, hfront, hback⟩
    · rintro ⟨d, _, rfl, hd, front, run, back, rfl, hfront, hback⟩
      exact ⟨d :: front, run, back, rfl, ⟨d, front, rfl, hd, hfront⟩, hback⟩

/-- The pieces of a pattern fit when the pattern does, with any runs for its stars. -/
lemma fitsPieces_splitOn (cs name : List Char) :
    FitsPieces U (cs.splitOn '*') name ↔ Fits U (fun _ => True) cs name := by
  induction cs generalizing name with
  | nil => simp [List.splitOn_nil, FitsPieces, Fits]
  | cons c cs ih =>
    obtain ⟨piece, pieces, hpieces⟩ :=
      List.exists_cons_of_ne_nil (List.splitOnP_ne_nil (· == '*') cs)
    have hsplit : cs.splitOn '*' = piece :: pieces := by rw [List.splitOn_eq_splitOnP, hpieces]
    rw [List.splitOn_eq_splitOnP, List.splitOnP_cons_eq_if_modifyHead, hpieces]
    simp only [hsplit] at ih
    by_cases hc : c = '*'
    · subst hc
      rw [if_pos (beq_self_eq_true _), fits_star]
      simp only [FitsPieces, ih]
      constructor
      · rintro ⟨front, run, back, rfl, hfront, hback⟩
        obtain rfl : front = [] := List.map_eq_nil_iff.mp hfront
        exact ⟨run, back, rfl, fun _ _ => trivial, hback⟩
      · rintro ⟨run, back, rfl, -, hback⟩
        exact ⟨[], run, back, rfl, rfl, hback⟩
    · rw [if_neg (by simpa using hc), fits_literal hc, List.modifyHead_cons, fitsPieces_cons]
      simp only [ih]

/-! ### Line ends -/

lemma lineEnds_append (xs ys : List Char) : lineEnds (xs ++ ys) = lineEnds xs + lineEnds ys :=
  List.countP_append

lemma lineEnds_eq_zero {run : List Char} : lineEnds run = 0 ↔ ∀ d ∈ run, isInLine d := by
  simp [lineEnds, List.countP_eq_zero]

lemma lineEnds_cons (d : Char) (ds : List Char) :
    lineEnds (d :: ds) = lineEnds [d] + lineEnds ds :=
  lineEnds_append [d] ds

section

variable (hfold : ∀ c d, U.fold c = U.fold d → isInLine c = isInLine d)

include hfold

lemma lineEnds_of_fold {d : Char} (h : U.fold d = U.fold c) : lineEnds [d] = lineEnds [c] := by
  simp [lineEnds, hfold d c h]

/-- A name that fits has the line ends of the pattern. -/
lemma lineEnds_le (h : Fits U inRun cs name) : lineEnds cs ≤ lineEnds name := by
  induction cs generalizing name with
  | nil => exact Nat.zero_le _
  | cons c cs ih =>
    by_cases hc : c = '*'
    · subst hc
      obtain ⟨run, back, rfl, -, hback⟩ := fits_star.1 h
      have hle := ih hback
      have hstar : lineEnds ['*'] = 0 := by decide
      rw [lineEnds_cons, lineEnds_append]
      omega
    · obtain ⟨d, back, rfl, hd, hback⟩ := (fits_literal hc).mp h
      have hle := ih hback
      rw [lineEnds_cons, lineEnds_cons d, lineEnds_of_fold hfold hd]
      omega

/-- With runs within a line a name fits that fits and has no further line ends. -/
lemma fits_inLine_iff : Fits U (isInLine ·) cs name ↔
    Fits U (fun _ => True) cs name ∧ lineEnds name ≤ lineEnds cs := by
  induction cs generalizing name with
  | nil =>
    constructor
    · rintro rfl
      exact ⟨rfl, le_refl _⟩
    · exact And.left
  | cons c cs ih =>
    by_cases hc : c = '*'
    · subst hc
      have hstar : lineEnds ['*'] = 0 := by decide
      rw [fits_star, fits_star, lineEnds_cons]
      constructor
      · rintro ⟨run, back, rfl, hrun, hback⟩
        obtain ⟨hfits, hle⟩ := ih.mp hback
        refine ⟨⟨run, back, rfl, fun _ _ => trivial, hfits⟩, ?_⟩
        rw [lineEnds_append, lineEnds_eq_zero.2 hrun]
        omega
      · rintro ⟨⟨run, back, rfl, -, hfits⟩, hle⟩
        have hback := lineEnds_le hfold hfits
        rw [lineEnds_append] at hle
        have hrun : lineEnds run = 0 := by omega
        exact ⟨run, back, rfl, lineEnds_eq_zero.1 hrun, ih.mpr ⟨hfits, by omega⟩⟩
    · rw [fits_literal hc, fits_literal hc, lineEnds_cons]
      constructor
      · rintro ⟨d, back, rfl, hd, hback⟩
        obtain ⟨hfits, hle⟩ := ih.mp hback
        refine ⟨⟨d, back, rfl, hd, hfits⟩, ?_⟩
        rw [lineEnds_cons, lineEnds_of_fold hfold hd]
        omega
      · rintro ⟨⟨d, back, rfl, hd, hfits⟩, hle⟩
        rw [lineEnds_cons, lineEnds_of_fold hfold hd] at hle
        exact ⟨d, back, rfl, hd, ih.mpr ⟨hfits, by omega⟩⟩

/-- **A pattern matches the names that its pieces fit**, unless such a name has more line ends than
the pattern: then a star would have to stand for one. -/
theorem matchesNamePattern_iff (name pattern : String) :
    (matchesNamePattern U name pattern ↔
        FitsPieces U (pattern.toList.splitOn '*') name.toList) ↔
      (FitsPieces U (pattern.toList.splitOn '*') name.toList →
        lineEnds name.toList ≤ lineEnds pattern.toList) := by
  rw [matchesNamePattern_iff_fits, fits_inLine_iff hfold, fitsPieces_splitOn]
  constructor
  · intro h hfits
    exact (h.mpr hfits).2
  · intro h
    exact ⟨And.left, fun hfits => ⟨hfits, h hfits⟩⟩

end

/-- A line end is no letter. -/
lemma isInLine_toLower (c : Char) : isInLine c.toLower = isInLine c := by
  by_cases hupper : c.isUpper
  · have hcodes := isUpper_iff.1 hupper
    have hlower := isLower_iff.1 (isLower_toLower hupper)
    have hline : ∀ d : Char, 65 ≤ d.toNat → d.toNat ≤ 122 → isInLine d = true := by
      intro d hlow hhigh
      simp only [isInLine, List.contains_eq_mem, List.mem_cons, List.not_mem_nil, or_false,
        Bool.not_eq_true', decide_eq_false_iff_not]
      omega
    rw [hline c (by omega) (by omega), hline c.toLower (by omega) (by omega)]
  · rw [toLower_of_not_isUpper (Bool.eq_false_iff.mpr hupper)]

/-- A name of one line. -/
theorem matchesNamePattern_iff_exa :
    (matchesNamePattern ascii "Exa.search" "exa.*" ↔
        FitsPieces ascii ("exa.*".toList.splitOn '*') "Exa.search".toList) ↔
      (FitsPieces ascii ("exa.*".toList.splitOn '*') "Exa.search".toList →
        lineEnds "Exa.search".toList ≤ lineEnds "exa.*".toList) :=
  matchesNamePattern_iff (fun c d h => by
    rw [← isInLine_toLower c, ← isInLine_toLower d]
    exact congrArg isInLine h) "Exa.search" "exa.*"

/-- A star does not stand for the end of a line. -/
theorem line_end_not_matched :
    FitsPieces ascii ("exa.*".toList.splitOn '*') "exa.\n".toList ∧
      matchesNamePattern ascii "exa.\n" "exa.*" = false := by
  refine ⟨?_, by decide⟩
  have hpieces : "exa.*".toList.splitOn '*' = ["exa.".toList, []] := by decide
  rw [hpieces]
  exact ⟨"exa.".toList, ['\n'], [], by decide, rfl, rfl⟩

end Workbench.DeferredTools
