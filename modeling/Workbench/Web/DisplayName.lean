import Workbench.Lib.NumberText
import Workbench.Lib.Regex
import Workbench.Lib.Words

/-!
The name an agent is shown under.

A name is looked at before it is taken apart into words and joined again with single spaces. Two
words that had more than one character between them stand side by side afterwards, and so may the
parts of an internal id.
-/

namespace Workbench.Web.DisplayName

open List Workbench.Lib Workbench.Lib.NumberText Workbench.Lib.Regex

def ID_PREFIX_WORDS : List String :=
  ["tnt", "prn", "pky", "rol", "grt", "ftr", "prv", "ocl", "crd", "wlt", "txn", "ofr", "mdl",
    "mpv", "mof", "mpr", "ses", "sml", "itn", "tp", "ast", "gtk", "run", "apr", "sig", "wfd", "wdv"]

/-- `[_\s-]` -/
def isSeparator (c : Char) : Bool := c = '_' || c = '-' || isTrimmed c

/-- `[0-9a-f]` in any case -/
def isHex (c : Char) : Bool := c.isDigit || ('a' ≤ c.toLower && c.toLower ≤ 'f')

def ID_LEAK_PATTERN : Regex :=
  seqs [boundary, alts (ID_PREFIX_WORDS.map caseless), one isSeparator, (one isHex).atLeast 16,
    boundary]

/-- What `toUpperCase` makes of a character. -/
structure UpperTable where
  upper : Char → List Char
  /-- nothing becomes white space, a hyphen or an underscore -/
  upper_inside : ∀ c, isSeparator c = false → ∀ d ∈ upper c, isSeparator d = false

/-- A property of a record that is not checked yet. -/
inductive Property
  | absent
  | null
  | text (value : String)
  | other
  deriving DecidableEq, Repr

structure AgentRecord where
  name : Property
  description : Property
  deriving DecidableEq, Repr

inductive Failure
  /-- with the summary of the check -/
  | invalidRecord
  | internalId (message : String)
  deriving DecidableEq, Repr

/-- `DisplayNameSource`: the name and the description of a record that passes. -/
def displayNameSource (record : AgentRecord) : Option (String × Option String) :=
  match record.name, record.description with
  | .text name, .absent | .text name, .null => some (name, none)
  | .text name, .text description => some (name, some description)
  | _, _ => none

/-- The first unit of a word in upper case. Half of a pair has none. -/
def capitalize (T : UpperTable) : List Char → List Char
  | [] => []
  | c :: cs => (if c.toNat < 0x10000 then T.upper c else [c]) ++ cs

/-- The words of a slug as they are shown. -/
def wordsOf (T : UpperTable) (slug : String) : List (List Char) :=
  ((slug.toList.splitOnP isSeparator).filter (· ≠ [])).map (capitalize T)

def humanizeSlug (T : UpperTable) (slug : String) : String :=
  String.ofList ([' '].intercalate (wordsOf T slug))

def deriveDisplayName (T : UpperTable) (definition : AgentRecord) : Except Failure String :=
  match displayNameSource definition with
  | none => .error .invalidRecord
  | some (name, description) =>
    let trimmed := description.map fun text => String.ofList (trim text.toList)
    match trimmed.filter (· ≠ "") with
    | some description =>
      if ID_LEAK_PATTERN.test description then
        .error (.internalId ("deriveDisplayName: description \"" ++ description ++
          "\" for agent record \"" ++ name ++ "\" carries an internal identifier; refusing to " ++
          "render it as a display name"))
      else .ok description
    | none =>
      if ID_LEAK_PATTERN.test name then
        .error (.internalId ("deriveDisplayName: agent record name \"" ++ name ++
          "\" is an internal identifier, not a slug; refusing to humanize it into a fake " ++
          "display name"))
      else .ok (humanizeSlug T name)

/-! ### Internal ids -/

def IsIdWord (word : List Char) : Prop :=
  word.map Char.toLower ∈ ID_PREFIX_WORDS.map String.toList

def IsIdNumber (hex : List Char) : Prop := 16 ≤ hex.length ∧ ∀ c ∈ hex, isHex c

/-- An id is cut in two between these words: the first ends in one of the words an id begins with,
and the second begins with its number. -/
def IsCutId (w v : List Char) : Prop :=
  ∃ front word hex back, w = front ++ word ∧ v = hex ++ back ∧ IsIdWord word ∧ IsIdNumber hex ∧
    (∀ c ∈ front.getLast?, isWord c = false) ∧ ∀ c ∈ back.head?, isWord c = false

/-- No two words that are shown side by side make an id. -/
def NoCutId (T : UpperTable) (slug : String) : Prop :=
  ∀ left w v right, wordsOf T slug = left ++ w :: v :: right → ¬ IsCutId w v

/-- The name is what is shown: the record passes the check and has no description to show. -/
def IsShownByName (record : AgentRecord) (name : String) : Prop :=
  ∃ description, displayNameSource record = some (name, description) ∧
    ∀ text ∈ description, trim text.toList = []

variable {T : UpperTable} {p q : Place} {cs word hex w v : List Char} {text name : String}
  {record : AgentRecord}

/-! ### The characters of an id -/

lemma isSeparator_of_isAlphanum {c : Char} (h : c.isAlphanum) : isSeparator c = false := by
  have hunderscore : c ≠ '_' := by
    rintro rfl
    exact absurd h (by decide)
  have hhyphen : c ≠ '-' := by
    rintro rfl
    exact absurd h (by decide)
  have htrimmed : isTrimmed c = false := by
    rcases Bool.or_eq_true_iff.mp h with halpha | hdigit
    · exact isTrimmed_of_isAlpha halpha
    · exact isTrimmed_of_isDigit hdigit
  simp [isSeparator, hunderscore, hhyphen, htrimmed]

lemma isSeparator_of_isAlpha {c : Char} (h : c.isAlpha) : isSeparator c = false :=
  isSeparator_of_isAlphanum (Bool.or_eq_true_iff.mpr (.inl h))

lemma of_isHex {c : Char} (h : isHex c) : isWord c ∧ isSeparator c = false := by
  rw [isHex, Bool.or_eq_true, Bool.and_eq_true, decide_eq_true_iff, decide_eq_true_iff] at h
  rcases h with hdigit | ⟨hlow, hhigh⟩
  · exact ⟨isWord_iff.2 (.inr (.inl hdigit)),
      isSeparator_of_isAlphanum (Bool.or_eq_true_iff.mpr (.inr hdigit))⟩
  · have hlower : c.toLower.isLower := isLower_iff.2 ⟨hlow, le_trans hhigh (by decide)⟩
    have halpha := isAlpha_of_toLower hlower
    exact ⟨isWord_iff.2 (.inl halpha), isSeparator_of_isAlpha halpha⟩

lemma of_isIdWord (h : IsIdWord word) :
    word ≠ [] ∧ ∀ c ∈ word, isWord c ∧ isSeparator c = false := by
  have hall : ∀ text ∈ ID_PREFIX_WORDS.map String.toList, text ≠ [] ∧ ∀ c ∈ text, c.isLower := by
    decide
  obtain ⟨hne, hlower⟩ := hall _ h
  refine ⟨by simpa using hne, fun c hc => ?_⟩
  have halpha := isAlpha_of_toLower (hlower _ (List.mem_map_of_mem hc))
  exact ⟨isWord_iff.2 (.inl halpha), isSeparator_of_isAlpha halpha⟩

lemma isSeparator_of_mem_wordsOf (h : w ∈ wordsOf T name) : ∀ c ∈ w, isSeparator c = false := by
  obtain ⟨v, hv, rfl⟩ := List.mem_map.mp h
  have hplain := Words.of_mem_splitOnP (List.mem_of_mem_filter hv)
  cases v with
  | nil => simp [capitalize]
  | cons c v =>
    obtain ⟨hc, hrest⟩ := List.forall_mem_cons.mp hplain
    intro d hd
    rw [capitalize] at hd
    rcases List.mem_append.mp hd with hd | hd
    · split_ifs at hd
      · exact T.upper_inside c hc d hd
      · rwa [List.mem_singleton.mp hd]
    · exact hrest d hd

/-! ### Where an id is found -/

lemma any_isWord_eq_false {c : Option Char} :
    c.any isWord = false ↔ ∀ d ∈ c, isWord d = false := by
  cases c <;> simp

lemma atBoundary_before (h : p.after.head?.any isWord) :
    atBoundary p ↔ ∀ c ∈ p.before.head?, isWord c = false := by
  rw [atBoundary, h, ← any_isWord_eq_false]
  simp

lemma atBoundary_after (h : p.before.head?.any isWord) :
    atBoundary p ↔ ∀ c ∈ p.after.head?, isWord c = false := by
  rw [atBoundary, h, ← any_isWord_eq_false]
  simp

/-- What a match of the pattern takes. -/
lemma mem_ends_idLeak : q ∈ ID_LEAK_PATTERN.ends p ↔ ∃ word sep hex, IsIdWord word ∧
    isSeparator sep ∧ IsIdNumber hex ∧ Spans p (word ++ ([sep] ++ hex)) q ∧ atBoundary p ∧
      atBoundary q := by
  have hword {p q : Place} : q ∈ (alts (ID_PREFIX_WORDS.map caseless)).ends p ↔
      ∃ word, IsIdWord word ∧ Spans p word q := by
    simp only [mem_ends_alts, List.mem_map, IsIdWord]
    constructor
    · rintro ⟨-, ⟨text, htext, rfl⟩, hq⟩
      obtain ⟨word, hword, hspans⟩ := mem_ends_caseless.1 hq
      exact ⟨word, ⟨text, htext, hword.symm⟩, hspans⟩
    · rintro ⟨word, ⟨text, htext, hword⟩, hspans⟩
      exact ⟨_, ⟨text, htext, rfl⟩, mem_ends_caseless.2 ⟨word, hword.symm, hspans⟩⟩
  simp only [ID_LEAK_PATTERN, seqs, mem_ends_seq, mem_ends_empty, mem_ends_boundary, hword,
    mem_ends_one, mem_ends_atLeast_one]
  constructor
  · rintro ⟨x, ⟨rfl, hp⟩, y, ⟨word, hid, h₁⟩, z, ⟨sep, hsep, h₂⟩, u, ⟨hex, hlength, hhex, h₃⟩, v,
      ⟨rfl, hq⟩, rfl⟩
    exact ⟨word, sep, hex, hid, hsep, ⟨hlength, hhex⟩, spans_append h₁ (spans_append h₂ h₃), hp, hq⟩
  · rintro ⟨word, sep, hex, hid, hsep, ⟨hlength, hhex⟩, hspans, hp, hq⟩
    obtain ⟨x, h₁, hspans⟩ := spans_split hspans
    obtain ⟨y, h₂, h₃⟩ := spans_split hspans
    exact ⟨p, ⟨rfl, hp⟩, x, ⟨word, hid, h₁⟩, y, ⟨sep, hsep, h₂⟩, q, ⟨hex, hlength, hhex, h₃⟩, q,
      ⟨rfl, hq⟩, rfl⟩

lemma head_isIdWord (h : IsIdWord word) (rest : List Char) :
    (word ++ rest).head?.any isWord := by
  obtain ⟨hne, hchars⟩ := of_isIdWord h
  obtain ⟨c, word, rfl⟩ := List.exists_cons_of_ne_nil hne
  simpa using (hchars c (by simp)).1

lemma last_isIdNumber (h : IsIdNumber hex) (before : List Char) :
    (hex.reverse ++ before).head?.any isWord := by
  have hne : hex.reverse ≠ [] := by
    intro hnil
    have hlength := h.1
    rw [List.reverse_eq_nil_iff.mp hnil] at hlength
    exact absurd hlength (by decide)
  obtain ⟨c, rest, hrest⟩ := List.exists_cons_of_ne_nil hne
  have hc : c ∈ hex := List.mem_reverse.mp (by rw [hrest]; exact List.mem_cons_self)
  simpa [hrest] using (of_isHex (h.2 c hc)).1

/-- The text holds an internal id between characters of no word. -/
lemma test_idLeak_iff : ID_LEAK_PATTERN.test text ↔ ∃ before word sep hex after,
    text.toList = before ++ (word ++ sep :: (hex ++ after)) ∧ IsIdWord word ∧ isSeparator sep ∧
      IsIdNumber hex ∧ (∀ c ∈ before.getLast?, isWord c = false) ∧
        ∀ c ∈ after.head?, isWord c = false := by
  rw [test_iff]
  simp only [mem_ends_idLeak]
  constructor
  · rintro ⟨p, htext, q, word, sep, hex, hid, hsep, hnumber, hspans, hp, hq⟩
    have hafter : p.after = word ++ sep :: (hex ++ q.after) := by
      rw [hspans.after]
      simp
    have hbefore : q.before = hex.reverse ++ (sep :: (word.reverse ++ p.before)) := by
      rw [hspans.before]
      simp
    rw [atBoundary_before (by rw [hafter]; exact head_isIdWord hid _)] at hp
    rw [atBoundary_after (by rw [hbefore]; exact last_isIdNumber hnumber _)] at hq
    exact ⟨p.before.reverse, word, sep, hex, q.after, by rw [htext, hafter], hid, hsep, hnumber,
      by rwa [List.getLast?_reverse], hq⟩
  · rintro ⟨before, word, sep, hex, after, htext, hid, hsep, hnumber, hbefore, hafter⟩
    obtain ⟨p, hp⟩ : ∃ p : Place, p = ⟨before.reverse, word ++ sep :: (hex ++ after)⟩ := ⟨_, rfl⟩
    obtain ⟨q, hq⟩ : ∃ q : Place, q = ⟨hex.reverse ++ (sep :: (word.reverse ++ before.reverse)),
      after⟩ := ⟨_, rfl⟩
    have hspans : Spans p (word ++ ([sep] ++ hex)) q := ⟨by simp [hp, hq], by simp [hp, hq]⟩
    refine ⟨p, by rw [htext, hp, List.reverse_reverse], q, word, sep, hex, hid, hsep, hnumber,
      hspans, ?_, ?_⟩
    · rw [atBoundary_before (by rw [hp]; exact head_isIdWord hid _), hp, List.head?_reverse]
      exact hbefore
    · rw [atBoundary_after (by rw [hq]; exact last_isIdNumber hnumber _), hq]
      exact hafter

/-- **Joined words hold an id** exactly when one is cut in two between two of them. -/
lemma test_humanizeSlug_iff : ID_LEAK_PATTERN.test (humanizeSlug T name) ↔ ¬ NoCutId T name := by
  have hblank : isSeparator ' ' := by decide
  have hplain : ∀ w ∈ wordsOf T name, ∀ c ∈ w, c ≠ ' ' := by
    rintro w hw c hc rfl
    rw [isSeparator_of_mem_wordsOf hw _ hc] at hblank
    cases hblank
  have hspace : isWord ' ' = false := by decide
  rw [test_idLeak_iff, humanizeSlug, String.toList_ofList]
  simp only [NoCutId, not_forall, not_not]
  constructor
  · rintro ⟨before, word, sep, hex, after, htext, hid, hsep, hnumber, hbefore, hafter⟩
    -- the separator is one of the spaces the words are joined with
    obtain rfl : sep = ' ' := by
      by_contra hne
      have hmem : sep ∈ [' '].intercalate (wordsOf T name) := by simp [htext]
      obtain hblank | ⟨w, hw, hc⟩ := Words.mem_of_mem_intercalate hmem
      · exact hne hblank
      · rw [isSeparator_of_mem_wordsOf hw _ hc] at hsep
        cases hsep
    rw [← List.append_assoc] at htext
    obtain ⟨left, w, v, right, hwords, hleft, hright⟩ :=
      Words.exists_of_intercalate (fun w hw hc => hplain w hw _ hc rfl) htext
    obtain ⟨front, hfront, hlast⟩ := Words.intercalate_concat (s := ' ') left w
    obtain ⟨back, hback, hhead⟩ := Words.intercalate_head (s := ' ') v right
    obtain ⟨u, rfl, rfl⟩ := Words.suffix_of_append (p := (· = ' '))
      (fun c hc heq => by
        have hno := ((of_isIdWord hid).2 c hc).2
        rw [heq] at hno
        cases hno)
      hlast (hleft.trans hfront)
    obtain ⟨t, rfl, rfl⟩ := Words.prefix_of_append (p := (· = ' '))
      (fun c hc heq => by
        have hno := (of_isHex (hnumber.2 c hc)).2
        rw [heq] at hno
        cases hno)
      hhead (hright.trans hback)
    refine ⟨left, u ++ word, hex ++ t, right, hwords, u, word, hex, t, rfl, rfl, hid, hnumber, ?_,
      ?_⟩
    · intro c hc
      refine hbefore c ?_
      have hne : u ≠ [] := by
        rintro rfl
        cases hc
      rwa [List.getLast?_append_of_ne_nil _ hne]
    · intro c hc
      refine hafter c ?_
      cases t with
      | nil => cases hc
      | cons d t => exact hc
  · rintro ⟨left, w, v, right, hwords, front, word, hex, back, rfl, rfl, hid, hnumber, hfront,
      hback⟩
    obtain ⟨before, hbefore, hlast⟩ := Words.intercalate_concat (s := ' ') left (front ++ word)
    obtain ⟨after, hafter, hhead⟩ := Words.intercalate_head (s := ' ') (hex ++ back) right
    refine ⟨before ++ front, word, ' ', hex, back ++ after, ?_, hid, hblank, hnumber, ?_, ?_⟩
    · rw [hwords, Words.intercalate_append, hbefore, hafter]
      simp
    · intro c hc
      by_cases hne : front = []
      · subst hne
        rw [List.append_nil] at hc
        rw [hlast c hc, hspace]
      · rw [List.getLast?_append_of_ne_nil _ hne] at hc
        exact hfront c hc
    · intro c hc
      cases back with
      | nil => rw [hhead c hc, hspace]
      | cons d back => exact hback c hc

/-! ### What is shown -/

lemma trimmed_eq_none {description : Option String} :
    (description.map fun text => String.ofList (trim text.toList)).filter (· ≠ "") = none ↔
      ∀ text ∈ description, trim text.toList = [] := by
  cases description with
  | none => simp
  | some text => simp [Option.filter, String.ofList_eq_empty_iff]

/-- The guard lets a text out only where the pattern does not match what it looks at. -/
lemma of_guard {raw shown : String} {error : Failure}
    (h : (if ID_LEAK_PATTERN.test raw then .error error else .ok shown) = Except.ok text) :
    ID_LEAK_PATTERN.test raw = false ∧ shown = text := by
  by_cases hleak : ID_LEAK_PATTERN.test raw
  · rw [if_pos hleak] at h
    cases h
  · rw [if_neg hleak] at h
    exact ⟨by simpa using hleak, Except.ok.inj h⟩

/-- **No internal id is shown** exactly if the name does not come apart into the two halves of
one. -/
theorem neverLeaks_iff (T : UpperTable) (record : AgentRecord) :
    (∀ text, deriveDisplayName T record = .ok text → ID_LEAK_PATTERN.test text = false) ↔
      ∀ name, IsShownByName record name → ID_LEAK_PATTERN.test name ∨ NoCutId T name := by
  unfold deriveDisplayName IsShownByName
  cases hsource : displayNameSource record with
  | none => simp
  | some source =>
    obtain ⟨name, description⟩ := source
    cases htrimmed : (description.map fun text => String.ofList (trim text.toList)).filter
        (· ≠ "") with
    | some shown =>
      have hno : ¬ ∀ text ∈ description, trim text.toList = [] := fun hblank => by
        rw [trimmed_eq_none.2 hblank] at htrimmed
        cases htrimmed
      simp only [htrimmed]
      constructor
      · rintro - other ⟨_, heq, hblank⟩
        obtain ⟨-, rfl⟩ := Prod.mk.inj (Option.some.inj heq)
        exact absurd hblank hno
      · intro _ text htext
        obtain ⟨hleak, rfl⟩ := of_guard htext
        exact hleak
    | none =>
      have hblank := trimmed_eq_none.1 htrimmed
      simp only [htrimmed]
      constructor
      · rintro hnever other ⟨_, heq, -⟩
        obtain ⟨rfl, -⟩ := Prod.mk.inj (Option.some.inj heq)
        by_cases hleak : ID_LEAK_PATTERN.test name
        · exact .inl hleak
        · refine .inr (by_contra fun hcut => ?_)
          have hfalse := hnever _ (if_neg hleak)
          rw [test_humanizeSlug_iff.2 hcut] at hfalse
          cases hfalse
      · intro hname text htext
        obtain ⟨hquiet, rfl⟩ := of_guard htext
        rcases hname name ⟨description, rfl, hblank⟩ with hleak | hcut
        · rw [hquiet] at hleak
          cases hleak
        · rw [← Bool.not_eq_true, test_humanizeSlug_iff, not_not]
          exact hcut

/-- The table of a place that knows no letters but the plain ones. -/
def plainUpper : UpperTable where
  upper c := [if c.isLower then Char.ofNat (c.toNat - 32) else c]
  upper_inside c hc d hd := by
    have hletters : ∀ n < 123, 97 ≤ n → isSeparator (Char.ofNat (n - 32)) = false := by decide
    obtain rfl := List.mem_singleton.mp hd
    split_ifs with hlower
    · obtain ⟨hlow, hhigh⟩ := isLower_iff.1 hlower
      exact hletters c.toNat (by omega) hlow
    · exact hc

/-- **Two hyphens hide an id** from the check, and it is shown. -/
theorem two_hyphens_leak : ¬ ∀ text, deriveDisplayName plainUpper
    ⟨.text "run--0123456789abcdef", .absent⟩ = .ok text → ID_LEAK_PATTERN.test text = false := by
  have hshown : deriveDisplayName plainUpper ⟨.text "run--0123456789abcdef", .absent⟩ =
      .ok "Run 0123456789abcdef" := by decide
  have hleaks : ID_LEAK_PATTERN.test "Run 0123456789abcdef" = true := by decide
  intro hnever
  rw [hnever _ hshown] at hleaks
  cases hleaks

end Workbench.Web.DisplayName
