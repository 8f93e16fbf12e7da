import Workbench.Lib.Json
import Workbench.Lib.Regex

/-!
Name patterns, and the search over deferred tool definitions.

What Unicode says of letters, digits and case is the engine's. Of it only this is used: white space
is neither a letter nor a number, and at the ends of a text it does not take part in the lowering
of its case.
-/

namespace Workbench.DeferredTools

open Workbench.Lib Workbench.Lib.Regex

/-- The Unicode tables of the engine. -/
structure Unicode where
  toLowerCase : String → String
  /-- the simple case folding of a pattern with the flags `iu` -/
  fold : Char → Char
  /-- `\p{L}` -/
  isLetter : Char → Bool
  /-- `\p{N}` -/
  isNumber : Char → Bool
  lower_empty : toLowerCase "" = ""
  blank_separates : ∀ c, NumberText.isTrimmed c → isLetter c = false ∧ isNumber c = false
  lower_inside : ∀ before text after : List Char, (∀ c ∈ before, NumberText.isTrimmed c) →
    (∀ c ∈ after, NumberText.isTrimmed c) →
    (toLowerCase (String.ofList (before ++ text ++ after))).toList =
      before ++ (toLowerCase (String.ofList text)).toList ++ after

structure ToolDefinition (ν : Type) where
  name : String
  description : String
  inputSchema : Json ν

variable {ν : Type} (U : Unicode)

/-! ### Patterns -/

/-- `.` -/
def isInLine (c : Char) : Bool := !([0x0a, 0x0d, 0x2028, 0x2029].contains c.toNat)

/-- A character of a pattern, once the metacharacters other than `*` are escaped. -/
def patternPart (c : Char) : Regex :=
  if c = '*' then star (one isInLine) else one fun d => U.fold d = U.fold c

def patternRegex (pattern : String) : Regex :=
  seqs (start :: (pattern.toList.map (patternPart U) ++ [finish]))

def matchesNamePattern (name pattern : String) : Bool :=
  !((patternRegex U pattern).ends ⟨[], name.toList⟩).isEmpty

/-- The definitions whose name matches any of the patterns. -/
def selectByPatterns (definitions : List (ToolDefinition ν)) (patterns : List String) :
    List (ToolDefinition ν) :=
  definitions.filter fun definition => patterns.any (matchesNamePattern U definition.name)

/-- Everything before the first `_` or `.`. -/
def toolNamespace (name : String) : String :=
  String.ofList (name.toList.takeWhile fun c => c ≠ '_' && c ≠ '.')

/-! ### Search -/

/-- `[\p{L}\p{N}_]` -/
def isTokenChar (c : Char) : Bool := U.isLetter c || U.isNumber c || c = '_'

/-- The runs of token characters. -/
def tokensOf (cs : List Char) : List (List Char) :=
  (cs.splitOnP fun c => !isTokenChar U c).filter fun token => 0 < token.length

def tokenize (query : String) : List (List Char) := tokensOf U (U.toLowerCase query).toList

def includes (text part : List Char) : Bool := text.tails.any part.isPrefixOf

def searchDefinitions (definitions : List (ToolDefinition ν)) (query : String) :
    List (ToolDefinition ν) :=
  let tokens := tokenize U query
  if tokens.length = 0 then definitions
  else definitions.filter fun definition =>
    let haystack := U.toLowerCase (definition.name ++ " " ++ definition.description)
    tokens.all (includes haystack.toList)

/-! ### The texts of an answer -/

/-- `slice(0, n)`, counted in UTF-16 code units. Half of a pair is no character. -/
def sliceUnits : ℕ → List Char → List Char
  | _, [] => []
  | 0, _ => []
  | n + 1, c :: cs =>
    if c.toNat < 0x10000 then c :: sliceUnits n cs
    else if n = 0 then ['\ufffd']
    else c :: sliceUnits (n - 1) cs

def unitsOf : List Char → ℕ
  | [] => 0
  | c :: cs => (if c.toNat < 0x10000 then 1 else 2) + unitsOf cs

def firstLine (description : String) : String :=
  let line := NumberText.trim (description.toList.takeWhile (· ≠ '\n'))
  String.ofList (if 200 < unitsOf line then sliceUnits 197 line ++ "...".toList else line)

def renderCatalogLines (definitions : List (ToolDefinition ν)) : String :=
  if definitions.length = 0 then "No deferred tools are available."
  else "\n".intercalate (definitions.map fun definition =>
    "- " ++ definition.name ++ ": " ++ firstLine definition.description)

def renderMatches (num : Numerals ν) (definitions : List (ToolDefinition ν)) (query : String) :
    String :=
  if definitions.length = 0 then
    "No deferred tool matches " ++ String.ofList (Json.quote query) ++
      ". Try a single keyword, or an empty query to list them all."
  else
    "\n\n".intercalate (definitions.map fun definition =>
      "\n".intercalate ["name: " ++ definition.name, "description: " ++ definition.description,
        "input schema: " ++ String.ofList (Json.stringify num definition.inputSchema)]) ++
      "\n\nThese tools are now available; call one directly."

/-! ### White space around a query -/

variable {U} {definitions : List (ToolDefinition ν)} {query : String} {cs before after : List Char}
  {c : Char}

lemma tokensOf_separator_cons (h : isTokenChar U c = false) :
    tokensOf U (c :: cs) = tokensOf U cs := by
  have hsplit := List.splitOnP_append_cons [] cs (p := fun c => !isTokenChar U c) (by simpa using h)
  rw [tokensOf, ← List.nil_append (c :: cs), hsplit]
  simp [tokensOf]

lemma tokensOf_append_separator (h : isTokenChar U c = false) :
    tokensOf U (cs ++ [c]) = tokensOf U cs := by
  have hsplit := List.splitOnP_append_cons cs [] (p := fun c => !isTokenChar U c) (by simpa using h)
  rw [tokensOf, hsplit]
  simp [tokensOf]

/-- Separators around a text do not change its tokens. -/
lemma tokensOf_inside (hbefore : ∀ c ∈ before, isTokenChar U c = false)
    (hafter : ∀ c ∈ after, isTokenChar U c = false) :
    tokensOf U (before ++ cs ++ after) = tokensOf U cs := by
  have hleft : ∀ text, tokensOf U (before ++ text) = tokensOf U text := by
    intro text
    induction before with
    | nil => rfl
    | cons c before ih =>
      obtain ⟨hc, hrest⟩ := List.forall_mem_cons.mp hbefore
      rw [List.cons_append, tokensOf_separator_cons hc, ih hrest]
  have hright : tokensOf U (cs ++ after) = tokensOf U cs := by
    induction after using List.reverseRecOn with
    | nil => rw [List.append_nil]
    | append_singleton after c ih =>
      rw [← List.append_assoc, tokensOf_append_separator (hafter c (by simp))]
      exact ih fun d hd => hafter d (by simp [hd])
  rw [List.append_assoc, hleft, hright]

lemma isTokenChar_of_blank (h : NumberText.isTrimmed c) : isTokenChar U c = false := by
  obtain ⟨hletter, hnumber⟩ := U.blank_separates c h
  have hline : c ≠ '_' := by
    rintro rfl
    exact absurd h (by decide)
  simp [isTokenChar, hletter, hnumber, hline]

/-- **The tokens of a query are those of the trimmed query.** -/
theorem tokenize_trim :
    tokenize U (String.ofList (NumberText.trim query.toList)) = tokenize U query := by
  obtain ⟨before, after, hquery, hbefore, hafter⟩ := NumberText.exists_trim query.toList
  have hlower := U.lower_inside before (NumberText.trim query.toList) after hbefore hafter
  rw [← hquery, String.ofList_toList] at hlower
  rw [tokenize, tokenize, hlower, tokensOf_inside]
  · exact fun c hc => isTokenChar_of_blank (hbefore c hc)
  · exact fun c hc => isTokenChar_of_blank (hafter c hc)

lemma tokenize_empty : tokenize U "" = [] := by
  rw [tokenize, U.lower_empty]
  rfl

lemma searchDefinitions_of_no_tokens (h : tokenize U query = []) :
    searchDefinitions U definitions query = definitions := by
  rw [searchDefinitions, if_pos (List.length_eq_zero_iff.mpr h)]

lemma searchDefinitions_congr {other : String} (h : tokenize U other = tokenize U query) :
    searchDefinitions U definitions other = searchDefinitions U definitions query := by
  rw [searchDefinitions, searchDefinitions, h]

lemma searchDefinitions_subset {definition : ToolDefinition ν}
    (h : definition ∈ searchDefinitions U definitions query) : definition ∈ definitions := by
  simp only [searchDefinitions] at h
  split at h
  · exact h
  · exact List.mem_of_mem_filter h

/-! ### ASCII -/

lemma toNat_of_blank (h : NumberText.isTrimmed c) : c.toNat ≤ 32 ∨ 160 ≤ c.toNat := by
  simp only [NumberText.isTrimmed, Bool.or_eq_true, List.contains_eq_mem, decide_eq_true_eq,
    List.mem_cons, List.not_mem_nil, or_false, Bool.and_eq_true] at h
  omega

lemma toLower_of_blank (h : NumberText.isTrimmed c) : c.toLower = c := by
  have hbounds := toNat_of_blank h
  refine toLower_of_not_isUpper (Bool.eq_false_iff.mpr fun hupper => ?_)
  have hcodes := isUpper_iff.1 hupper
  omega

lemma map_toLower_of_blank (h : ∀ c ∈ cs, NumberText.isTrimmed c) : cs.map Char.toLower = cs :=
  (List.map_congr_left fun c hc => toLower_of_blank (h c hc)).trans (List.map_id _)

/-- The tables as far as ASCII goes. -/
def ascii : Unicode where
  toLowerCase text := String.ofList (text.toList.map Char.toLower)
  fold := Char.toLower
  isLetter c := c.isAlpha
  isNumber c := c.isDigit
  lower_empty := rfl
  blank_separates := by
    intro c h
    have hbounds := toNat_of_blank h
    constructor
    · rw [← Bool.not_eq_true, isAlpha_iff, isUpper_iff, isLower_iff]
      omega
    · rw [← Bool.not_eq_true, isDigit_iff]
      omega
  lower_inside before text after hbefore hafter := by
    simp only [String.toList_ofList, List.map_append, map_toLower_of_blank hbefore,
      map_toLower_of_blank hafter]

example : matchesNamePattern ascii "exa.search" "exa.*" = true := by decide

example : matchesNamePattern ascii "exasearch" "exa.*" = false := by decide

end Workbench.DeferredTools
