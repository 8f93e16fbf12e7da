import Workbench.Lib.NumberText
import Workbench.Lib.Regex

/-!
The file a line of a message names.

A label is a comment or a path, wrapped in backticks or with a colon behind it; what is left when
these are taken off, behind the last slash, is the name of the file. What is taken off in front of a
name depends on nothing behind it, so whatever stands in front, a text that ends in one file's name
never names the other.
-/

namespace Workbench.Web.ChatPackage

open List Workbench.Lib Workbench.Lib.Regex
open Workbench.Lib.NumberText (isTrimmed isTrimmed_of_isAlpha trim)

abbrev Line := List Char

/-- The two contract files. -/
inductive ContractFile
  | manifest
  | definition
  deriving DecidableEq

def PACKAGE_MANIFEST_NAME : String := "package.json"

def AGENT_DEFINITION_NAME : String := "definition.json"

def ContractFile.name : ContractFile → String
  | manifest => PACKAGE_MANIFEST_NAME
  | definition => AGENT_DEFINITION_NAME

def isTick (c : Char) : Bool := c = '\x60'

/-- `.replace(/^(\/\/|#)\s*/, "")` -/
def stripComment (cs : Line) : Line :=
  if ['/', '/'].isPrefixOf cs then (cs.drop 2).dropWhile isTrimmed
  else if ['#'].isPrefixOf cs then (cs.drop 1).dropWhile isTrimmed
  else cs

/-- `.replace(/:$/, "")` -/
def stripColon (cs : Line) : Line := if cs.getLast? = some ':' then cs.dropLast else cs

def strippedLabel (text : Line) : Line :=
  trim (stripColon (((stripComment (trim text)).dropWhile isTick).rdropWhile isTick))

def namedFile (text : Line) : Option ContractFile :=
  let base := ((strippedLabel text).splitOn '/').getLastD []
  if base.map Char.toLower = PACKAGE_MANIFEST_NAME.toList then some .manifest
  else if base.map Char.toLower = AGENT_DEFINITION_NAME.toList then some .definition
  else none

/-- What stands behind the last white space. -/
def lastToken (text : Line) : Line := text.rtakeWhile fun c => !isTrimmed c

def namedFileFromInfoString (info : Line) : Option ContractFile :=
  namedFile info <|> namedFile (lastToken (trim info))

/-- The characters `.` does not match. -/
def isLineEnd (c : Char) : Bool := [0x0a, 0x0d, 0x2028, 0x2029].contains c.toNat

/-- The info string of a line that opens a fence. -/
def fenceInfo (line : Line) : Option Line :=
  match trim line with
  | '\x60' :: '\x60' :: '\x60' :: info => if info.any isLineEnd then none else some info
  | _ => none

variable {text front back name rest before info : Line} {file other : ContractFile} {c : Char}

/-! ### The name of a file in a text -/

/-- The name of a file in any case. -/
def Spelled (file : ContractFile) (name : Line) : Prop := name.map Char.toLower = file.name.toList

lemma isAlpha_or_dot (file : ContractFile) : ∀ c ∈ file.name.toList, c.isAlpha ∨ c = '.' := by
  cases file <;> decide

lemma Spelled.plain (h : Spelled file name) : ∀ c ∈ name, c.isAlpha ∨ c = '.' := by
  intro c hc
  by_cases hupper : c.isUpper
  · exact .inl (isAlpha_iff.2 (.inl hupper))
  · have hmem : c.toLower ∈ file.name.toList := by
      rw [← h]
      exact List.mem_map_of_mem hc
    rw [toLower_of_not_isUpper (by simpa using hupper)] at hmem
    exact isAlpha_or_dot file c hmem

lemma Spelled.ne_nil (h : Spelled file name) : name ≠ [] := by
  rintro rfl
  have hlength := congrArg List.length h
  cases file <;> exact absurd hlength (by decide)

/-- Nothing of a name is taken off. -/
lemma plain_spec (h : c.isAlpha ∨ c = '.') : isTrimmed c = false ∧ isTick c = false ∧
    isLineEnd c = false ∧ c ≠ '/' ∧ c ≠ '#' ∧ c ≠ ':' := by
  rcases h with h | rfl
  · have hbounds : (65 ≤ c.toNat ∧ c.toNat ≤ 90) ∨ (97 ≤ c.toNat ∧ c.toNat ≤ 122) :=
      (isAlpha_iff.1 h).imp isUpper_iff.1 isLower_iff.1
    refine ⟨isTrimmed_of_isAlpha h, ?_, ?_, ?_, ?_, ?_⟩
    · exact decide_eq_false fun hc => by subst hc; exact absurd h (by decide)
    · simp only [isLineEnd, List.contains_eq_mem, decide_eq_false_iff_not, List.mem_cons,
        List.not_mem_nil, or_false]
      omega
    all_goals
      rintro rfl
      exact absurd h (by decide)
  · decide

lemma Spelled.exists_cons (h : Spelled file name) :
    ∃ c cs, name = c :: cs ∧ (c.isAlpha ∨ c = '.') := by
  obtain ⟨c, cs, rfl⟩ := List.exists_cons_of_ne_nil h.ne_nil
  exact ⟨c, cs, rfl, h.plain c List.mem_cons_self⟩

lemma Spelled.slash_not_mem (h : Spelled file name) : '/' ∉ name := fun hmem =>
  (plain_spec (h.plain '/' hmem)).2.2.2.1 rfl

/-! ### What is taken off -/

lemma dropWhile_front {p : Char → Bool} (h : p c = false) :
    (front ++ c :: rest).dropWhile p = front.dropWhile p ++ c :: rest := by
  induction front with
  | nil => rw [List.nil_append, List.dropWhile_cons_of_neg (by simp [h])]; rfl
  | cons d front ih =>
    by_cases hd : p d
    · rw [List.cons_append, List.dropWhile_cons_of_pos hd, List.dropWhile_cons_of_pos hd, ih]
    · rw [List.cons_append, List.dropWhile_cons_of_neg hd, List.dropWhile_cons_of_neg hd]
      rfl

lemma isPrefixOf_front {marker : Line} (h : c ∉ marker) :
    marker.isPrefixOf (front ++ c :: rest) = marker.isPrefixOf front := by
  rw [Bool.eq_iff_iff, List.isPrefixOf_iff_prefix, List.isPrefixOf_iff_prefix]
  refine ⟨fun hbegins => ?_, fun hbegins => hbegins.trans (List.prefix_append _ _)⟩
  rcases Nat.lt_or_ge front.length marker.length with hlength | hlength
  · -- a longer marker would have the character itself
    have hlong : front ++ [c] <+: marker := by
      have hhere : front ++ [c] <+: front ++ c :: rest := ⟨rest, by simp⟩
      refine List.prefix_of_prefix_length_le hhere hbegins ?_
      rw [List.length_append, List.length_singleton]
      exact hlength
    exact absurd (hlong.subset (by simp)) h
  · exact List.prefix_of_prefix_length_le hbegins (List.prefix_append _ _) hlength

lemma stripComment_front (h : c.isAlpha ∨ c = '.') :
    stripComment (front ++ c :: rest) = stripComment front ++ c :: rest := by
  obtain ⟨hblank, -, -, hslash, hhash, -⟩ := plain_spec h
  rw [stripComment, stripComment, isPrefixOf_front (by simp [hslash]),
    isPrefixOf_front (by simp [hhash])]
  split_ifs with hslashes hsharp
  · obtain ⟨front, rfl⟩ := List.isPrefixOf_iff_prefix.mp hslashes
    exact dropWhile_front hblank
  · obtain ⟨front, rfl⟩ := List.isPrefixOf_iff_prefix.mp hsharp
    exact dropWhile_front hblank
  · rfl

/-- What is left of what stands in front of a name. -/
def frontLeft (front : Line) : Line :=
  ((stripComment (front.dropWhile isTrimmed)).dropWhile isTick).dropWhile isTrimmed

/-- What may stand behind a name. -/
def labelEnd (colon : Bool) (closing : ℕ) : Line :=
  (if colon then [':'] else []) ++ List.replicate closing '`'

lemma trim_eq_rdropWhile (cs : Line) : trim cs = (cs.dropWhile isTrimmed).rdropWhile isTrimmed :=
  rfl

lemma rdropWhile_append_of_last {p : Char → Bool} (hne : name ≠ [])
    (h : ∀ c ∈ name, p c = false) : (front ++ name).rdropWhile p = front ++ name := by
  refine List.rdropWhile_eq_self_iff.mpr fun hall => ?_
  rw [List.getLast_append_of_ne_nil _ hne]
  simp [h _ (List.getLast_mem hne)]

lemma rdropWhile_replicate {p : Char → Bool} {d : Char} (n : ℕ) (h : p d) :
    (front ++ List.replicate n d).rdropWhile p = front.rdropWhile p := by
  induction n with
  | zero => simp
  | succ n ih =>
    rw [List.replicate_succ', ← List.append_assoc, List.rdropWhile_concat_pos _ _ _ h, ih]

lemma mem_labelEnd {colon : Bool} {closing : ℕ} (h : c ∈ labelEnd colon closing) :
    c = ':' ∨ c = '\x60' := by
  rcases List.mem_append.mp h with h | h
  · left
    cases colon <;> simp_all
  · exact .inr (List.eq_of_mem_replicate h)

/-- A label ends in characters that show. -/
lemma name_end_spec (h : Spelled file name) (colon : Bool) (closing : ℕ) :
    ∀ c ∈ name ++ labelEnd colon closing, isTrimmed c = false ∧ isLineEnd c = false := by
  intro c hc
  rcases List.mem_append.mp hc with hc | hc
  · have hplain := plain_spec (h.plain c hc)
    exact ⟨hplain.1, hplain.2.2.1⟩
  · rcases mem_labelEnd hc with rfl | rfl <;> decide

lemma trim_of_visible {cs : Line} (h : ∀ d ∈ c :: cs, isTrimmed d = false) :
    trim (front ++ c :: cs) = front.dropWhile isTrimmed ++ c :: cs := by
  rw [trim_eq_rdropWhile, dropWhile_front (h c List.mem_cons_self),
    rdropWhile_append_of_last (by simp) h]

lemma stripColon_append (h : Spelled file name) (colon : Bool) :
    stripColon (front ++ name ++ if colon then [':'] else []) = front ++ name := by
  cases colon with
  | true => simp [stripColon]
  | false =>
    have hlast : (front ++ name ++ []).getLast? ≠ some ':' := by
      rw [List.append_nil, List.getLast?_append_of_ne_nil _ h.ne_nil]
      intro hcolon
      exact (plain_spec (h.plain ':' (List.mem_of_getLast? hcolon))).2.2.2.2.2 rfl
    rw [if_neg Bool.false_ne_true, stripColon, if_neg hlast, List.append_nil]

/-- A label loses what stands behind the name, and of what stands in front as much as if nothing
stood behind it. -/
lemma strippedLabel_append_name (h : Spelled file name) (colon : Bool) (closing : ℕ) :
    strippedLabel (front ++ name ++ labelEnd colon closing) = frontLeft front ++ name := by
  obtain ⟨c, cs, rfl, hc⟩ := h.exists_cons
  have htick := (plain_spec hc).2.1
  have hplain := fun d hd => plain_spec (h.plain d hd)
  have htrim : trim (front ++ (c :: cs) ++ labelEnd colon closing) =
      front.dropWhile isTrimmed ++ (c :: cs) ++ labelEnd colon closing := by
    have hshows : ∀ d ∈ c :: (cs ++ labelEnd colon closing), isTrimmed d = false :=
      fun d hd => (name_end_spec h colon closing d hd).1
    rw [List.append_assoc, List.cons_append, trim_of_visible hshows, ← List.cons_append,
      List.append_assoc]
  have hcomment : stripComment (front.dropWhile isTrimmed ++ (c :: cs) ++ labelEnd colon closing) =
      stripComment (front.dropWhile isTrimmed) ++ (c :: cs) ++ labelEnd colon closing := by
    rw [List.append_assoc, List.cons_append, stripComment_front hc, ← List.cons_append,
      List.append_assoc]
  have hticks {front : Line} :
      ((front ++ (c :: cs) ++ labelEnd colon closing).dropWhile isTick).rdropWhile isTick =
        front.dropWhile isTick ++ (c :: cs) ++ if colon then [':'] else [] := by
    have hlast : ∀ d ∈ (c :: cs) ++ (if colon then [':'] else []), isTick d = false := by
      intro d hd
      rcases List.mem_append.mp hd with hd | hd
      · exact (hplain d hd).2.1
      · obtain rfl : d = ':' := by
          cases colon <;> simp_all
        decide
    rw [List.append_assoc, List.cons_append, dropWhile_front htick, labelEnd, ← List.cons_append,
      ← List.append_assoc, ← List.append_assoc, rdropWhile_replicate _ (by decide),
      List.append_assoc, rdropWhile_append_of_last (by simp) hlast]
  rw [strippedLabel, htrim, hcomment, hticks, stripColon_append h,
    trim_of_visible fun d hd => (hplain d hd).1, frontLeft]

/-! ### The last segment of a path -/

lemma suffix_intercalate (segments : List Line) (last : Line) :
    last <:+ ['/'].intercalate (segments ++ [last]) := by
  induction segments with
  | nil => simp
  | cons segment segments ih =>
    rw [List.cons_append, List.intercalate_cons_of_ne_nil (by simp)]
    exact ih.trans (List.suffix_append _ _)

lemma getLast_splitOn_suffix (cs : Line) : (cs.splitOn '/').getLastD [] <:+ cs := by
  have hsplit := List.dropLast_append_getLast (List.splitOn_ne_nil '/' cs)
  have hsuffix := suffix_intercalate (cs.splitOn '/').dropLast
    ((cs.splitOn '/').getLast (List.splitOn_ne_nil '/' cs))
  have hlast : (cs.splitOn '/').getLastD [] =
      (cs.splitOn '/').getLast (List.splitOn_ne_nil '/' cs) := by
    conv_lhs => rw [← hsplit]
    exact List.getLastD_concat
  rwa [hsplit, List.intercalate_splitOn, ← hlast] at hsuffix

lemma getLast_splitOn_name (h : Spelled file name)
    (hfront : front = [] ∨ front.getLast? = some '/') :
    ((front ++ name).splitOn '/').getLastD [] = name := by
  have hname : name.splitOn '/' = [name] := List.splitOn_eq_singleton h.slash_not_mem
  rcases hfront with rfl | hslash
  · rw [List.nil_append, hname]
    rfl
  · obtain ⟨path, rfl⟩ := List.getLast?_eq_some_iff.mp hslash
    rw [List.append_assoc, List.singleton_append, List.splitOn_append_cons_self, hname,
      List.getLastD_concat]

lemma namedFile_eq_some : namedFile text = some file ↔
    Spelled file (((strippedLabel text).splitOn '/').getLastD []) := by
  have hnames : PACKAGE_MANIFEST_NAME.toList ≠ AGENT_DEFINITION_NAME.toList := by decide
  simp only [namedFile, Spelled]
  generalize (((strippedLabel text).splitOn '/').getLastD []).map Char.toLower = base
  cases file with
  | manifest =>
    simp only [ContractFile.name]
    split_ifs <;> simp_all
  | definition =>
    simp only [ContractFile.name]
    split_ifs <;> simp_all

/-- Neither name ends in the other. -/
lemma eq_of_suffix_of_suffix {cs : Line} (h : file.name.toList <:+ cs)
    (h' : other.name.toList <:+ cs) : other = file := by
  have hends := List.suffix_or_suffix_of_suffix h h'
  revert hends
  cases file <;> cases other <;> decide

/-- **A text that ends in a name names that file or none.** -/
theorem namedFile_append_name (h : Spelled file name) (colon : Bool) (closing : ℕ)
    (hnamed : namedFile (front ++ name ++ labelEnd colon closing) = some other) : other = file := by
  rw [namedFile_eq_some, strippedLabel_append_name h] at hnamed
  have hbase := (getLast_splitOn_suffix (frontLeft front ++ name)).map Char.toLower
  rw [hnamed] at hbase
  have hname := (List.suffix_append (frontLeft front) name).map Char.toLower
  rw [h] at hname
  exact eq_of_suffix_of_suffix hname hbase

/-- **A label names the file** of the name in it, if what is in front is taken off or ends in a
slash. -/
theorem namedFile_of_front (h : Spelled file name) (colon : Bool) (closing : ℕ)
    (hfront : frontLeft front = [] ∨ (frontLeft front).getLast? = some '/') :
    namedFile (front ++ name ++ labelEnd colon closing) = some file := by
  rw [namedFile_eq_some, strippedLabel_append_name h, getLast_splitOn_name h hfront]
  exact h

/-! ### Labels -/

/-- The signs a comment begins with, and none. -/
def commentSigns : List Line := [[], ['/', '/'], ['#']]

/-- The label of a file: a comment sign, backticks around the name and a path in front of it, and a
colon, each of which may be missing. -/
structure Label (file : ContractFile) where
  comment : Line
  blanks : Line
  opening : ℕ
  path : Line
  name : Line
  colon : Bool
  closing : ℕ
  isSign : comment ∈ commentSigns
  isBlank : ∀ c ∈ blanks, isTrimmed c
  isPath : path = [] ∨ path.getLast? = some '/'
  spelled : Spelled file name
  inLine : ∀ c ∈ blanks ++ path, isLineEnd c = false

namespace Label

def inFront (label : Label file) : Line :=
  label.comment ++ label.blanks ++ List.replicate label.opening '`' ++ label.path

def line (label : Label file) : Line :=
  label.inFront ++ label.name ++ labelEnd label.colon label.closing

end Label

lemma getLast?_of_suffix {left path : Line} (h : left <:+ path) (hpath : path.getLast? = some c) :
    left = [] ∨ left.getLast? = some c := by
  obtain ⟨gone, rfl⟩ := h
  by_cases hne : left = []
  · exact .inl hne
  · exact .inr (List.getLast?_append_of_ne_nil gone hne ▸ hpath)

lemma stripComment_suffix (cs : Line) : stripComment cs <:+ cs := by
  rw [stripComment]
  split_ifs
  · exact (List.dropWhile_suffix _).trans (List.drop_suffix _ _)
  · exact (List.dropWhile_suffix _).trans (List.drop_suffix _ _)
  · exact List.suffix_refl cs

lemma frontLeft_suffix (front : Line) : frontLeft front <:+ front :=
  (List.dropWhile_suffix _).trans ((List.dropWhile_suffix _).trans
    ((stripComment_suffix _).trans (List.dropWhile_suffix _)))

/-- Behind the sign of a comment its blanks go too. -/
lemma stripComment_sign {sign : Line} (h : sign = ['/', '/'] ∨ sign = ['#']) (rest : Line) :
    stripComment ((sign ++ rest).dropWhile isTrimmed) = rest.dropWhile isTrimmed := by
  rcases h with rfl | rfl
  · rw [List.cons_append, List.dropWhile_cons_of_neg (by decide)]
    rfl
  · rw [List.cons_append, List.dropWhile_cons_of_neg (by decide)]
    rfl

lemma frontLeft_of_sign {comment blanks : Line} (hsign : comment ∈ commentSigns)
    (hblank : ∀ c ∈ blanks, isTrimmed c) (opening : ℕ) :
    frontLeft (comment ++ blanks ++ List.replicate opening '\x60') = [] := by
  have hticks : (List.replicate opening '\x60').dropWhile isTick = [] :=
    List.dropWhile_eq_nil_iff.mpr fun c hc => by
      obtain rfl := List.eq_of_mem_replicate hc
      decide
  have hgone : (blanks ++ List.replicate opening '\x60').dropWhile isTrimmed =
      List.replicate opening '\x60' := by
    rw [List.dropWhile_append_of_pos hblank]
    cases opening with
    | zero => rfl
    | succ opening => exact List.dropWhile_cons_of_neg (by decide)
  have hcomment : stripComment ((comment ++ (blanks ++ List.replicate opening '\x60')).dropWhile
      isTrimmed) = List.replicate opening '\x60' := by
    simp only [commentSigns, List.mem_cons, List.not_mem_nil, or_false] at hsign
    rcases hsign with rfl | hsign
    · rw [List.nil_append, hgone]
      cases opening <;> rfl
    · rw [stripComment_sign hsign, hgone]
  rw [frontLeft, List.append_assoc, hcomment, hticks]
  rfl

theorem namedFile_line (label : Label file) : namedFile label.line = some file := by
  refine namedFile_of_front label.spelled label.colon label.closing ?_
  rcases label.isPath with hnone | hpath
  · left
    rw [Label.inFront, hnone, List.append_nil]
    exact frontLeft_of_sign label.isSign label.isBlank label.opening
  · refine getLast?_of_suffix (frontLeft_suffix _) ?_
    have hne : label.path ≠ [] := by
      rintro hnil
      simp [hnil] at hpath
    rw [Label.inFront, List.getLast?_append_of_ne_nil _ hne, hpath]

example : namedFile "// Scribe/definition.json".toList = some .definition := by decide

-- a colon is taken off in front of the closing backticks only
example : namedFile "`package.json`:".toList = none := by decide

lemma Label.line_eq (label : Label file) :
    label.line = label.inFront ++ (label.name ++ labelEnd label.colon label.closing) :=
  List.append_assoc ..

lemma isLineEnd_line (label : Label file) : ∀ c ∈ label.line, isLineEnd c = false := by
  intro c hc
  rw [Label.line_eq] at hc
  rcases List.mem_append.mp hc with hc | hc
  · simp only [Label.inFront, List.mem_append] at hc
    rcases hc with ((hc | hc) | hc) | hc
    · have hsigns : ∀ sign ∈ commentSigns, ∀ c ∈ sign, isLineEnd c = false := by decide
      exact hsigns _ label.isSign c hc
    · exact label.inLine c (List.mem_append_left _ hc)
    · obtain rfl := List.eq_of_mem_replicate hc
      decide
    · exact label.inLine c (List.mem_append_right _ hc)
  · exact (name_end_spec label.spelled label.colon label.closing c hc).2

/-! ### Info strings -/

def ticks : Line := ['`', '`', '`']

/-- What stands behind the backticks of a fence is its info string. -/
lemma fenceInfo_append_line {front : Line} (label : Label file)
    (h : ∀ c ∈ front, isLineEnd c = false) :
    fenceInfo (ticks ++ (front ++ label.line)) = some (front ++ label.line) := by
  obtain ⟨c, cs, hcs⟩ : ∃ c cs, label.name ++ labelEnd label.colon label.closing = c :: cs :=
    List.exists_cons_of_ne_nil (by simp [label.spelled.ne_nil])
  have hshows : ∀ d ∈ c :: cs, isTrimmed d = false := fun d hd =>
    (name_end_spec label.spelled label.colon label.closing d (hcs ▸ hd)).1
  have htrim : trim (ticks ++ (front ++ label.line)) = ticks ++ (front ++ label.line) := by
    rw [Label.line_eq, hcs, ← List.append_assoc, ← List.append_assoc, trim_of_visible hshows]
    rfl
  have hinLine : (front ++ label.line).any isLineEnd = false := by
    refine List.any_eq_false.mpr fun d hd => ?_
    rcases List.mem_append.mp hd with hd | hd
    · simp [h d hd]
    · simp [isLineEnd_line label d hd]
  rw [fenceInfo, htrim]
  simp only [ticks, List.cons_append, List.nil_append, hinLine, Bool.false_eq_true, if_false]

lemma namedFileFromInfoString_line (label : Label file) :
    namedFileFromInfoString label.line = some file := by
  rw [namedFileFromInfoString, namedFile_line]
  rfl

lemma lastToken_append {blanks token : Line} (hne : blanks ≠ [])
    (hblank : ∀ c ∈ blanks, isTrimmed c) (hshows : ∀ c ∈ token, isTrimmed c = false)
    (htoken : token ≠ []) :
    lastToken (trim (front ++ blanks ++ token)) = token := by
  obtain ⟨c, cs, rfl⟩ := List.exists_cons_of_ne_nil htoken
  rw [trim_of_visible hshows, lastToken, List.rtakeWhile, List.reverse_append,
    List.takeWhile_append_of_pos fun d hd => by simp [hshows d (List.mem_reverse.mp hd)]]
  have hlast : (front ++ blanks).getLast? = some (blanks.getLast hne) := by
    rw [List.getLast?_append_of_ne_nil _ hne, List.getLast?_eq_some_getLast]
  have hend := hblank _ (List.getLast_mem hne)
  rcases getLast?_of_suffix (List.dropWhile_suffix isTrimmed) hlast with hnone | hsome
  · simp [hnone]
  · obtain ⟨left, hleft⟩ := List.getLast?_eq_some_iff.mp hsome
    simp [hleft, hend]

/-- A file is named behind a language, whatever the two are taken for together. -/
lemma namedFileFromInfoString_token {language blanks : Line} (label : Label file)
    (hne : blanks ≠ []) (hblank : ∀ c ∈ blanks, isTrimmed c)
    (hshows : ∀ c ∈ label.line, isTrimmed c = false) :
    namedFileFromInfoString (language ++ blanks ++ label.line) = some file := by
  have hline : label.line ≠ [] := by simp [Label.line, label.spelled.ne_nil]
  rw [namedFileFromInfoString, lastToken_append hne hblank hshows hline, namedFile_line]
  cases hdirect : namedFile (language ++ blanks ++ label.line) with
  | none => rfl
  | some other =>
    rw [Label.line, ← List.append_assoc, ← List.append_assoc] at hdirect
    rw [namedFile_append_name label.spelled label.colon label.closing hdirect]
    rfl

/-- What is trimmed to the backticks of a fence names nothing. -/
lemma namedFile_of_ticks (h : trim text = ticks) : namedFile text = none := by
  have hlabel : strippedLabel text = [] := by
    rw [strippedLabel, h]
    decide
  rw [namedFile, hlabel]
  decide

end Workbench.Web.ChatPackage
