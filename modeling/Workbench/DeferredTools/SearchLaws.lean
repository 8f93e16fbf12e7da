import Mathlib.Data.List.Infix
import Workbench.DeferredTools.Match
import Workbench.Lib.LowerCase
import Workbench.Lib.Words

/-!
What a search returns, by its words.

A space separates tokens, and lower case is the same on either side of it. So the tokens of two
queries with a space between them are those of the one and those of the other, and the tokens of a
name stand in the text that is searched.
-/

namespace Workbench.DeferredTools

open List Workbench.Lib
open Workbench.Lib.NumberText (isTrimmed)

/-- The tables of Unicode. Lower case is the one that no language changes. -/
structure UnicodeTables extends CaseTables where
  fold : Char → Char
  isLetter : Char → Bool
  isNumber : Char → Bool
  blank_separates : ∀ c, isTrimmed c → isLetter c = false ∧ isNumber c = false

namespace UnicodeTables

variable (T : UnicodeTables)

/-- An engine with these tables. -/
def unicode : Unicode where
  toLowerCase text := String.ofList (T.rules.lower text.toList)
  fold := T.fold
  isLetter := T.isLetter
  isNumber := T.isNumber
  lower_empty := rfl
  blank_separates := T.blank_separates
  lower_inside before text after hbefore hafter := by
    simp only [String.toList_ofList]
    exact T.lower_inside hbefore hafter

end UnicodeTables

/-- The tables as far as ASCII goes. -/
def asciiTables : UnicodeTables where
  toCaseTables := CaseTables.ascii
  fold := Char.toLower
  isLetter c := c.isAlpha
  isNumber c := c.isDigit
  blank_separates := ascii.blank_separates

variable {ν : Type} {U : Unicode} {T : UnicodeTables} {definitions : List (ToolDefinition ν)}
  {definition : ToolDefinition ν} {query : String} {cs rest token text part : List Char}

/-! ### Tokens -/

lemma includes_iff : includes text part ↔ part <:+: text := by
  simp only [includes, List.any_eq_true, List.mem_tails, List.isPrefixOf_iff_prefix,
    List.infix_iff_prefix_suffix]
  exact ⟨fun ⟨tail, hsuffix, hprefix⟩ => ⟨tail, hprefix, hsuffix⟩,
    fun ⟨tail, hprefix, hsuffix⟩ => ⟨tail, hsuffix, hprefix⟩⟩

lemma tokensOf_append_cons {c : Char} (h : isTokenChar U c = false) :
    tokensOf U (cs ++ c :: rest) = tokensOf U cs ++ tokensOf U rest := by
  have hsplit := List.splitOnP_append_cons cs rest (p := fun c => !isTokenChar U c)
    (by simpa using h)
  rw [tokensOf, hsplit, List.filter_append]
  rfl

/-- A token stands in the text it is a token of. -/
lemma infix_of_mem_tokensOf (h : token ∈ tokensOf U cs) : token <:+: cs :=
  Words.infix_of_mem_splitOnP (List.mem_of_mem_filter h)

/-! ### What a query matches -/

/-- The text a definition is searched in. -/
def haystackOf (U : Unicode) (definition : ToolDefinition ν) : List Char :=
  (U.toLowerCase (definition.name ++ " " ++ definition.description)).toList

/-- Every token of the query stands in the definition. -/
def MatchesQuery (U : Unicode) (definition : ToolDefinition ν) (query : String) : Prop :=
  ∀ token ∈ tokenize U query, token <:+: haystackOf U definition

lemma mem_searchDefinitions : definition ∈ searchDefinitions U definitions query ↔
    definition ∈ definitions ∧ MatchesQuery U definition query := by
  rw [searchDefinitions]
  split
  · next hnone =>
    have hmatches : MatchesQuery U definition query := by
      rw [MatchesQuery, List.length_eq_zero_iff.mp hnone]
      simp
    simp [hmatches]
  · simp [List.mem_filter, MatchesQuery, haystackOf, includes_iff]

open Classical in
lemma searchDefinitions_eq_filter :
    searchDefinitions U definitions query = definitions.filter (MatchesQuery U · query) := by
  have hmem : ∀ definition ∈ definitions,
      (tokenize U query).all (includes (haystackOf U definition)) =
        decide (MatchesQuery U definition query) := by
    intro definition _
    rw [Bool.eq_iff_iff, decide_eq_true_iff]
    simp [MatchesQuery, includes_iff]
  rw [searchDefinitions, ← List.filter_congr hmem]
  split
  · next hnone =>
    rw [List.length_eq_zero_iff.mp hnone]
    simp
  · rfl

lemma toLowerCase_space (a b : String) : (T.unicode.toLowerCase (a ++ " " ++ b)).toList =
    (T.unicode.toLowerCase a).toList ++ ' ' :: (T.unicode.toLowerCase b).toList := by
  have htext : (a ++ " " ++ b).toList = a.toList ++ ' ' :: b.toList := by
    simp
  simp only [UnicodeTables.unicode, String.toList_ofList, htext, CaseRules.lower_space]

lemma tokenize_append_space (q₁ q₂ : String) : tokenize T.unicode (q₁ ++ " " ++ q₂) =
    tokenize T.unicode q₁ ++ tokenize T.unicode q₂ := by
  have hspace : isTokenChar T.unicode ' ' = false := isTokenChar_of_blank (by decide)
  rw [tokenize, tokenize, tokenize, toLowerCase_space, tokensOf_append_cons hspace]

/-- The name in lower case stands in front of the text that is searched. -/
lemma prefix_haystackOf :
    (T.unicode.toLowerCase definition.name).toList <+: haystackOf T.unicode definition := by
  rw [haystackOf, toLowerCase_space]
  exact List.prefix_append _ _

open Classical in
/-- **A search composes**: a query of two parts returns, in the order of the catalogue, what both
parts return, and a definition is found by its name. -/
theorem searchDefinitions_composes (T : UnicodeTables) (definitions : List (ToolDefinition ν)) :
    (∀ q₁ q₂ : String, searchDefinitions T.unicode definitions (q₁ ++ " " ++ q₂) =
      definitions.filter fun definition =>
        definition ∈ searchDefinitions T.unicode definitions q₁ ∧
          definition ∈ searchDefinitions T.unicode definitions q₂) ∧
    ∀ definition ∈ definitions,
      definition ∈ searchDefinitions T.unicode definitions definition.name := by
  constructor
  · intro q₁ q₂
    rw [searchDefinitions_eq_filter]
    refine List.filter_congr fun definition hmem => ?_
    have hboth : MatchesQuery T.unicode definition (q₁ ++ " " ++ q₂) ↔
        MatchesQuery T.unicode definition q₁ ∧ MatchesQuery T.unicode definition q₂ := by
      simp only [MatchesQuery, tokenize_append_space, List.forall_mem_append]
    simp only [mem_searchDefinitions, hmem, true_and, hboth]
  · intro definition hmem
    refine mem_searchDefinitions.2 ⟨hmem, fun token htoken => ?_⟩
    exact (infix_of_mem_tokensOf htoken).trans prefix_haystackOf.isInfix

end Workbench.DeferredTools
