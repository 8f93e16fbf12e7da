import Workbench.Lib.FirstFree
import Workbench.Lib.Strip
import Workbench.Lib.Words
import Workbench.Web.Punycode

/-!
The name that is suggested for an MCP server.

It is the name the server reports, or else one read off the host of its URL, or else a plain
fallback. A reported name is cut to length before a number is put behind it to tell it from names
that are taken, and a name read off a host is not cut at all.

Texts are code units, as JavaScript has them: a name can be cut between the two units of a
character.
-/

namespace Workbench.Web.McpServerName

open Workbench.Lib

/-- A text, by its code units. -/
abbrev Text := List ℕ

def isWhite (unit : ℕ) : Bool := NumberText.isTrimmed (Char.ofNat unit)

def trim (text : Text) : Text := Strip.strip isWhite text

/-- `String(n)` -/
def digitUnits (n : ℕ) : Text := (NumberText.digits n).map Char.toNat

/-- What is outside: the letters and their cases in the language of the reader. Lower case does not
look past a space, and upper case shows where the letter does. -/
structure Locale where
  /-- `toLocaleLowerCase` -/
  lower : Text → Text
  /-- `toLocaleUpperCase` -/
  upper : Text → Text
  /-- the code points of `\p{L}` and `\p{N}` -/
  isLetterOrNumber : ℕ → Bool
  lower_numbered : ∀ text n, lower (text ++ 32 :: digitUnits n) = lower text ++ 32 :: digitUnits n
  upper_visible : ∀ unit, isWhite unit = false →
    upper [unit] ≠ [] ∧ ∀ u ∈ upper [unit], isWhite u = false
  letter_visible : ∀ point, isLetterOrNumber point → isWhite point = false

/-- The hosts of URLs, none where `new URL` throws; there is no white space in them. -/
structure HostNames where
  hostname : Text → Option Text
  visible : ∀ url host, hostname url = some host → ∀ unit ∈ host, isWhite unit = false

/-- A property of an object, as far as `ServerInfoShape` looks at it. -/
inductive Property
  | absent
  | text (value : Text)
  | other
  deriving DecidableEq

/-- The reported `serverInfo`. -/
inductive ServerInfo
  | object (name title : Property)
  /-- nothing, or no object -/
  | other
  deriving DecidableEq

inductive McpNameSource
  | server
  | url
  | fallback
  deriving DecidableEq, Repr

structure Suggestion where
  name : Text
  source : McpNameSource
  deriving DecidableEq

structure SuggestArgs where
  url : Text
  serverInfo : ServerInfo
  existingNames : Option (List Text)

def textOf (text : String) : Text := Utf16.encode text.toList

def fallbackName : Text := textOf "MCP server"

def maxNameLength : ℕ := 60

def cleanCandidate (value : Text) : Option Text :=
  let trimmed := trim ((trim value).take maxNameLength)
  if trimmed = [] then none else some trimmed

/-- Host labels that name the protocol, not the server. -/
def genericHostLabels : List Text :=
  ["api", "app", "apps", "gateway", "mcp", "proxy", "server", "servers"].map textOf

/-! ### Hosts -/

/-- `hostname.replace(/^www\./i, "")` -/
def withoutWww : Text → Text
  | a :: b :: c :: 46 :: rest =>
    if [a, b, c].all fun unit => unit = 87 || unit = 119 then rest else a :: b :: c :: 46 :: rest
  | hostname => hostname

/-- `/^[\d.]+$/` -/
def isNumeric (text : Text) : Bool :=
  text ≠ [] && text.all fun unit => 48 ≤ unit && unit ≤ 57 || unit = 46

def distinctiveHostLabel (locale : Locale) (hostname : Text) : Option Text :=
  let bare := withoutWww hostname
  if bare = [] then none
  else if bare = textOf "[::1]" ∨ bare = textOf "::1" then some (textOf "localhost")
  else if 46 ∉ bare ∨ isNumeric bare ∨ 58 ∈ bare then some bare
  else
    match bare.splitOn 46 with
    | [] => some []
    | [first] => some first
    | first :: second :: _ =>
      if locale.lower first ∈ genericHostLabels then some second else some first

/-- A text by its code points, each with the one or two units it has. -/
def pointsOf : Text → List Text
  | [] => []
  | [unit] => [[unit]]
  | high :: low :: rest =>
    if Utf16.isLead high ∧ 0xdc00 ≤ low ∧ low < 0xe000 then [high, low] :: pointsOf rest
    else [high] :: pointsOf (low :: rest)

def pointValue : Text → ℕ
  | [high, low] => 0x10000 + (high - 0xd800) * 0x400 + (low - 0xdc00)
  | [unit] => unit
  | _ => 0

/-- The runs of letters and numbers. -/
def wordsOf (locale : Locale) (text : Text) : List Text :=
  (((pointsOf text).splitOnP fun point => !locale.isLetterOrNumber (pointValue point)).filter
    (· ≠ [])).map List.flatten

def capitalized (locale : Locale) (word : Text) : Text :=
  locale.upper (word.take 1) ++ word.drop 1

/-- The words of a label. The outer result is none if the label is never read. -/
def humanizeHostLabel (locale : Locale) (label : Text) : Option (Option Text) :=
  match Punycode.decodePunycodeLabel label with
  | none => none
  | some readable =>
    let words := wordsOf locale (locale.lower readable)
    if words = [] then some none
    else some (some (List.intercalate [32] (words.map (capitalized locale))))

def displayNameFromUrl (locale : Locale) (hosts : HostNames) (url : Text) : Option (Option Text) :=
  let trimmed := trim url
  if trimmed = [] then some none
  else
    match hosts.hostname trimmed with
    | none => some none
    | some hostname =>
      match distinctiveHostLabel locale hostname with
      | none => some none
      | some label =>
        if isNumeric label ∨ 58 ∈ label then some (some label)
        else humanizeHostLabel locale label

/-! ### Suggestions -/

def numbered (base : Text) (n : ℕ) : Text := base ++ 32 :: digitUnits n

def takenNames (locale : Locale) (existingNames : List Text) : List Text :=
  existingNames.map fun name => locale.lower (trim name)

/-- The base, or with the first number whose name is free. -/
def dedupeMcpName (locale : Locale) (base : Text) (existingNames : List Text) : Option Text :=
  let taken := takenNames locale existingNames
  if locale.lower base ∉ taken then some base
  else (FirstFree.firstFree (fun n => locale.lower (numbered base n)) taken
    (taken.length + 1) 2).map (numbered base)

/-- The candidate a property of `serverInfo` gives. -/
def candidateOf : Property → Option Text
  | .text value => cleanCandidate value
  | .absent | .other => none

def serverReportedName : ServerInfo → Option Text
  | .other => none
  -- the shape does not fit
  | .object .other _ | .object _ .other => none
  | .object name title =>
    match candidateOf title with
    | some fromTitle => some fromTitle
    | none => candidateOf name

/-- None if a loop never ends, the one of the dedupe or the one that reads a label. -/
def suggestMcpServerName (locale : Locale) (hosts : HostNames) (args : SuggestArgs) :
    Option Suggestion :=
  let existing := args.existingNames.getD []
  match serverReportedName args.serverInfo with
  | some fromServer => (dedupeMcpName locale fromServer existing).map (⟨·, .server⟩)
  | none =>
    match displayNameFromUrl locale hosts args.url with
    | none => none
    | some (some fromUrl) => (dedupeMcpName locale fromUrl existing).map (⟨·, .url⟩)
    | some none => (dedupeMcpName locale fallbackName existing).map (⟨·, .fallback⟩)

variable {locale : Locale} {hosts : HostNames} {args : SuggestArgs} {existing : List Text}
  {text base name label word : Text} {n : ℕ}

/-! ### What shows -/

/-- There is something in a text, and no white space at its ends. -/
def Shown (text : Text) : Prop := text ≠ [] ∧ Strip.Bare isWhite text

lemma Shown.trim (h : Shown text) : trim text = text := Strip.strip_eq_self h.2

lemma shown_of_visible (hne : text ≠ []) (h : ∀ unit ∈ text, isWhite unit = false) : Shown text :=
  ⟨hne, Strip.bare_of_all h⟩

lemma isWhite_toNat (c : Char) : isWhite c.toNat = NumberText.isTrimmed c := by
  rw [isWhite, Char.ofNat_toNat]

lemma isWhite_digitUnits : ∀ unit ∈ digitUnits n, isWhite unit = false := by
  intro unit hunit
  obtain ⟨c, hc, rfl⟩ := List.mem_map.mp hunit
  rw [isWhite_toNat]
  exact NumberText.isTrimmed_of_isDigit (NumberText.isDigit_of_mem_digits hc)

lemma digitUnits_ne_nil (n : ℕ) : digitUnits n ≠ [] := by
  simp [digitUnits, NumberText.digits_ne_nil]

lemma shown_numbered (h : Shown base) : Shown (numbered base n) := by
  have hsplit : numbered base n = base ++ [32] ++ digitUnits n := by
    rw [numbered, List.append_assoc, List.singleton_append]
  rw [hsplit]
  refine ⟨by simp [h.1], Strip.bare_append [32] h.2 ?_ h.1 (digitUnits_ne_nil n)⟩
  exact Strip.bare_of_all isWhite_digitUnits

/-- Half of a pair is no white space. -/
lemma isWhite_surrogate {unit : ℕ} (h : 0xd800 ≤ unit ∧ unit < 0xe000) : isWhite unit = false := by
  have hinvalid : ¬ unit.isValidChar := by
    unfold Nat.isValidChar
    omega
  rw [isWhite, Char.ofNat, dif_neg hinvalid]
  decide

lemma isWhite_of_mem_pointsOf {point : Text} (h : point ∈ pointsOf text)
    (hletter : locale.isLetterOrNumber (pointValue point)) :
    point ≠ [] ∧ ∀ unit ∈ point, isWhite unit = false := by
  fun_induction pointsOf text with
  | case1 => cases h
  | case2 unit =>
    obtain rfl := List.mem_singleton.mp h
    exact ⟨List.cons_ne_nil _ _, by simpa using locale.letter_visible unit hletter⟩
  | case3 high low rest hpair ih =>
    rcases List.mem_cons.mp h with rfl | h
    · obtain ⟨hhigh, hlow⟩ := hpair
      simp only [Utf16.isLead, Bool.and_eq_true, decide_eq_true_eq] at hhigh
      refine ⟨List.cons_ne_nil _ _, fun unit hunit => isWhite_surrogate ?_⟩
      rcases List.mem_cons.mp hunit with rfl | hunit
      · omega
      · obtain rfl := List.mem_singleton.mp hunit
        omega
    · exact ih h
  | case4 high low rest hpair ih =>
    rcases List.mem_cons.mp h with rfl | h
    · exact ⟨List.cons_ne_nil _ _, by simpa using locale.letter_visible high hletter⟩
    · exact ih h

lemma shown_word (h : word ∈ wordsOf locale text) :
    word ≠ [] ∧ ∀ unit ∈ word, isWhite unit = false := by
  obtain ⟨run, hrun, rfl⟩ := List.mem_map.mp h
  obtain ⟨hrun, hne⟩ := List.mem_filter.mp hrun
  have hpoint : ∀ point ∈ run, point ≠ [] ∧ ∀ unit ∈ point, isWhite unit = false := by
    intro point hpoint
    have hletter := Words.of_mem_splitOnP hrun point hpoint
    rw [Bool.not_eq_false'] at hletter
    exact isWhite_of_mem_pointsOf ((Words.infix_of_mem_splitOnP hrun).subset hpoint) hletter
  constructor
  · obtain ⟨point, rest, rfl⟩ := List.exists_cons_of_ne_nil (of_decide_eq_true hne)
    rw [List.flatten_cons]
    exact fun hnil => (hpoint point List.mem_cons_self).1 (List.append_eq_nil_iff.mp hnil).1
  · intro unit hunit
    obtain ⟨point, hmem, hunit⟩ := List.mem_flatten.mp hunit
    exact (hpoint point hmem).2 unit hunit

lemma shown_capitalized (h : word ∈ wordsOf locale text) : Shown (capitalized locale word) := by
  obtain ⟨hne, hvisible⟩ := shown_word h
  obtain ⟨unit, rest, rfl⟩ := List.exists_cons_of_ne_nil hne
  obtain ⟨hunit, hrest⟩ := List.forall_mem_cons.mp hvisible
  obtain ⟨hupper, hshows⟩ := locale.upper_visible unit hunit
  have hcapital : capitalized locale (unit :: rest) = locale.upper [unit] ++ rest := rfl
  rw [hcapital]
  refine shown_of_visible (by simp [hupper]) fun u hu => ?_
  rcases List.mem_append.mp hu with hu | hu
  · exact hshows u hu
  · exact hrest u hu

/-- Words that show make a text that does. -/
lemma shown_intercalate {words : List Text} (hne : words ≠ []) (h : ∀ word ∈ words, Shown word) :
    Shown ([32].intercalate words) := by
  induction words with
  | nil => exact absurd rfl hne
  | cons word words ih =>
    obtain ⟨hword, hwords⟩ := List.forall_mem_cons.mp h
    by_cases hlast : words = []
    · rw [hlast, Words.intercalate_singleton]
      exact hword
    · have hrest := ih hlast hwords
      have hsplit : word ++ 32 :: [32].intercalate words =
          word ++ [32] ++ [32].intercalate words := by
        rw [List.append_assoc, List.singleton_append]
      rw [Words.intercalate_cons hlast, hsplit]
      exact ⟨by simp [hword.1], Strip.bare_append [32] hword.2 hrest.2 hword.1 hrest.1⟩

/-! ### Candidates -/

lemma cleanCandidate_spec (h : cleanCandidate text = some base) :
    Shown base ∧ base.length ≤ maxNameLength := by
  unfold cleanCandidate at h
  simp only at h
  split_ifs at h with hne
  cases h
  refine ⟨⟨hne, Strip.bare_strip _ _⟩, ?_⟩
  exact (Strip.length_strip_le _ _).trans (List.length_take_le _ _)

lemma serverReportedName_spec {info : ServerInfo} (h : serverReportedName info = some base) :
    Shown base ∧ base.length ≤ maxNameLength := by
  have hcandidate : ∀ property, candidateOf property = some base →
      Shown base ∧ base.length ≤ maxNameLength := by
    intro property hproperty
    cases property with
    | text value => exact cleanCandidate_spec hproperty
    | absent => cases hproperty
    | other => cases hproperty
  unfold serverReportedName at h
  split at h
  · cases h
  · cases h
  · cases h
  · split at h
    · next htitle => exact hcandidate _ (htitle.trans h)
    · exact hcandidate _ h

lemma mem_of_mem_withoutWww {unit : ℕ} (h : unit ∈ withoutWww text) : unit ∈ text := by
  unfold withoutWww at h
  split at h
  · split_ifs at h
    · simp [h]
    · exact h
  · exact h

/-- A label is of the host it is read off, but for the name of the loopback one. -/
lemma mem_of_mem_distinctiveHostLabel (h : distinctiveHostLabel locale text = some label) {unit : ℕ}
    (hunit : unit ∈ label) : unit ∈ text ∨ unit ∈ textOf "localhost" := by
  unfold distinctiveHostLabel at h
  simp only at h
  have hpiece : ∀ piece ∈ (withoutWww text).splitOn 46, unit ∈ piece → unit ∈ text := by
    intro piece hpiece hmem
    rw [List.splitOn_eq_splitOnP] at hpiece
    exact mem_of_mem_withoutWww ((Words.infix_of_mem_splitOnP hpiece).subset hmem)
  split_ifs at h
  · cases h
    exact .inr hunit
  · cases h
    exact .inl (mem_of_mem_withoutWww hunit)
  · split at h
    · cases h
      cases hunit
    · next hsplit =>
      cases h
      exact .inl (hpiece _ (by rw [hsplit]; exact List.mem_cons_self) hunit)
    · next hsplit =>
      split_ifs at h <;> cases h
      · exact .inl (hpiece _ (by rw [hsplit]; simp) hunit)
      · exact .inl (hpiece _ (by rw [hsplit]; simp) hunit)

lemma displayNameFromUrl_spec (h : displayNameFromUrl locale hosts text = some (some base)) :
    Shown base := by
  unfold displayNameFromUrl at h
  simp only at h
  split_ifs at h with hempty
  · cases h
  split at h
  · cases h
  next hostname hhost =>
  split at h
  · cases h
  next label hlabel =>
  split_ifs at h with hwhole
  · cases h
    refine shown_of_visible ?_ fun unit hunit => ?_
    · rintro rfl
      simp [isNumeric] at hwhole
    · rcases mem_of_mem_distinctiveHostLabel hlabel hunit with hmem | hmem
      · exact hosts.visible _ _ hhost unit hmem
      · have hall : ∀ unit ∈ textOf "localhost", isWhite unit = false := by decide
        exact hall unit hmem
  · unfold humanizeHostLabel at h
    split at h
    · cases h
    · simp only at h
      split_ifs at h with hwords
      · cases h
      cases h
      refine shown_intercalate (mt List.map_eq_nil_iff.mp hwords) fun word hword => ?_
      obtain ⟨word, hmem, rfl⟩ := List.mem_map.mp hword
      exact shown_capitalized hmem

/-! ### Numbers behind a name -/

lemma digitUnits_injective : Function.Injective digitUnits := by
  intro m n h
  have hdigits : NumberText.digits m = NumberText.digits n :=
    List.map_injective_iff.mpr (fun _ _ => Char.toNat_inj.mp) h
  have hvalue := congrArg NumberText.integerOf hdigits
  rw [NumberText.integerOf_digits, NumberText.integerOf_digits] at hvalue
  exact_mod_cast Option.some.inj hvalue

lemma lower_numbered_injective (locale : Locale) (base : Text) :
    Function.Injective fun n => locale.lower (numbered base n) := by
  intro m n h
  simp only [numbered, locale.lower_numbered] at h
  exact digitUnits_injective (List.cons.inj (List.append_cancel_left h)).2

lemma length_digitUnits_le {m n : ℕ} (h : m ≤ n) :
    (digitUnits m).length ≤ (digitUnits n).length := by
  rw [digitUnits, digitUnits, List.length_map, List.length_map, NumberText.digits,
    Nat.length_toDigits_le_iff (by decide)
      (List.length_pos_iff.mpr (NumberText.digits_ne_nil n))]
  refine h.trans_lt ?_
  exact (Nat.length_toDigits_le_iff (by decide)
    (List.length_pos_iff.mpr (NumberText.digits_ne_nil n))).mp le_rfl

lemma exists_dedupeMcpName (locale : Locale) (base : Text) (existing : List Text) :
    ∃ name, dedupeMcpName locale base existing = some name := by
  unfold dedupeMcpName
  by_cases hfree : locale.lower base ∉ takenNames locale existing
  · exact ⟨base, if_pos hfree⟩
  · obtain ⟨k, hk⟩ := @FirstFree.exists_firstFree _ _ _ (takenNames locale existing)
      (lower_numbered_injective locale base) 2
    exact ⟨numbered base k, by simp only [if_neg hfree, hk, Option.map_some]⟩

/-- What a name is made of, and that it is free. -/
lemma dedupeMcpName_spec (h : dedupeMcpName locale base existing = some name) :
    locale.lower name ∉ takenNames locale existing ∧
      (locale.lower base ∉ takenNames locale existing ∧ name = base ∨
        locale.lower base ∈ takenNames locale existing ∧ ∃ k, 2 ≤ k ∧ name = numbered base k ∧
          ∀ j, 2 ≤ j → locale.lower (numbered base j) ∉ takenNames locale existing → k ≤ j) := by
  unfold dedupeMcpName at h
  by_cases hfree : locale.lower base ∉ takenNames locale existing
  · simp only [if_pos hfree, Option.some.injEq] at h
    exact ⟨h ▸ hfree, .inl ⟨hfree, h.symm⟩⟩
  · simp only [if_neg hfree] at h
    obtain ⟨k, hk, rfl⟩ := Option.map_eq_some_iff.mp h
    obtain ⟨hle, hname, hfirst⟩ := FirstFree.firstFree_eq_some hk
    exact ⟨hname, .inr ⟨not_not.mp hfree, k, hle, rfl, hfirst⟩⟩

/-! ### Suggestions -/

/-- What a suggested name should be. -/
structure Sound (locale : Locale) (existing : List Text) (name : Text) : Prop where
  nonempty : name ≠ []
  trimmed : trim name = name
  capped : name.length ≤ maxNameLength
  free : locale.lower name ∉ existing.map fun other => locale.lower (trim other)

/-- The name that is deduped: the server's own, or the one read off the URL, or the fallback. -/
inductive Candidate (locale : Locale) (hosts : HostNames) (args : SuggestArgs) : Text → Prop
  | server {fromServer : Text} (h : serverReportedName args.serverInfo = some fromServer) :
    Candidate locale hosts args fromServer
  | url {fromUrl : Text} (hserver : serverReportedName args.serverInfo = none)
    (h : displayNameFromUrl locale hosts args.url = some (some fromUrl)) :
    Candidate locale hosts args fromUrl
  | fallback (hserver : serverReportedName args.serverInfo = none)
    (h : displayNameFromUrl locale hosts args.url = some none) :
    Candidate locale hosts args fallbackName

/-- The name is short enough, with a number that is free if the name is taken. -/
def Fits (locale : Locale) (existing : List Text) (base : Text) : Prop :=
  if locale.lower base ∉ takenNames locale existing then base.length ≤ maxNameLength
  else ∃ k, 2 ≤ k ∧ locale.lower (numbered base k) ∉ takenNames locale existing ∧
    (numbered base k).length ≤ maxNameLength

lemma Candidate.shown (h : Candidate locale hosts args base) : Shown base := by
  cases h with
  | server h => exact (serverReportedName_spec h).1
  | url _ h => exact displayNameFromUrl_spec h
  | fallback =>
    refine ⟨by decide, ?_⟩
    constructor <;> decide

/-- A suggestion is a candidate, deduped. -/
lemma exists_suggestion_iff : (∃ source, suggestMcpServerName locale hosts args =
      some ⟨name, source⟩) ↔
    ∃ base, Candidate locale hosts args base ∧
      dedupeMcpName locale base (args.existingNames.getD []) = some name := by
  unfold suggestMcpServerName
  simp only
  constructor
  · rintro ⟨source, h⟩
    split at h
    · next fromServer hserver =>
      obtain ⟨deduped, hdeduped, heq⟩ := Option.map_eq_some_iff.mp h
      cases heq
      exact ⟨fromServer, .server hserver, hdeduped⟩
    · next hserver =>
      split at h
      · cases h
      · next fromUrl hurl =>
        obtain ⟨deduped, hdeduped, heq⟩ := Option.map_eq_some_iff.mp h
        cases heq
        exact ⟨fromUrl, .url hserver hurl, hdeduped⟩
      · next hurl =>
        obtain ⟨deduped, hdeduped, heq⟩ := Option.map_eq_some_iff.mp h
        cases heq
        exact ⟨fallbackName, .fallback hserver hurl, hdeduped⟩
  · rintro ⟨base, hbase, hdeduped⟩
    cases hbase with
    | server h => exact ⟨.server, by simp [h, hdeduped]⟩
    | url hserver h => exact ⟨.url, by simp [hserver, h, hdeduped]⟩
    | fallback hserver h => exact ⟨.fallback, by simp [hserver, h, hdeduped]⟩

/-- Of the numbered names that are free the first is the shortest. -/
lemma length_dedupeMcpName (h : dedupeMcpName locale base existing = some name) :
    name.length ≤ maxNameLength ↔ Fits locale existing base := by
  obtain ⟨hname, ⟨hfree, rfl⟩ | ⟨htaken, k, hk, rfl, hfirst⟩⟩ := dedupeMcpName_spec h
  · rw [Fits, if_pos hfree]
  · rw [Fits, if_neg (not_not.mpr htaken)]
    constructor
    · exact fun hlength => ⟨k, hk, hname, hlength⟩
    · rintro ⟨j, hj, hjfree, hlength⟩
      have hle := length_digitUnits_le (hfirst j hj hjfree)
      simp only [numbered, List.length_append, List.length_cons] at hlength ⊢
      omega

/-- Whatever is suggested shows, and is free. -/
lemma shown_of_dedupe (hbase : Shown base) (h : dedupeMcpName locale base existing = some name) :
    Shown name := by
  obtain ⟨-, ⟨-, rfl⟩ | ⟨-, k, -, rfl, -⟩⟩ := dedupeMcpName_spec h
  · exact hbase
  · exact shown_numbered hbase

/-- **A suggestion is sound** exactly if the candidate fits, with its number if it needs one. -/
theorem suggestMcpServerName_sound_iff (locale : Locale) (hosts : HostNames) (args : SuggestArgs) :
    (∃ name source, suggestMcpServerName locale hosts args = some ⟨name, source⟩ ∧
      Sound locale (args.existingNames.getD []) name) ↔
    ∃ base, Candidate locale hosts args base ∧
      Fits locale (args.existingNames.getD []) base := by
  constructor
  · rintro ⟨name, source, hsuggest, hsound⟩
    obtain ⟨base, hbase, hdedupe⟩ := exists_suggestion_iff.1 ⟨source, hsuggest⟩
    exact ⟨base, hbase, (length_dedupeMcpName hdedupe).mp hsound.capped⟩
  · rintro ⟨base, hbase, hfits⟩
    obtain ⟨name, hdedupe⟩ := exists_dedupeMcpName locale base (args.existingNames.getD [])
    obtain ⟨source, hsuggest⟩ := exists_suggestion_iff.2 ⟨base, hbase, hdedupe⟩
    have hshown := shown_of_dedupe hbase.shown hdedupe
    exact ⟨name, source, hsuggest, hshown.1, hshown.trim,
      (length_dedupeMcpName hdedupe).mpr hfits, (dedupeMcpName_spec hdedupe).1⟩

/-! ### A long title -/

def isAsciiAlphanumeric (unit : ℕ) : Bool :=
  48 ≤ unit && unit ≤ 57 || 65 ≤ unit && unit ≤ 90 || 97 ≤ unit && unit ≤ 122

lemma isWhite_of_isAsciiAlphanumeric {unit : ℕ} (h : isAsciiAlphanumeric unit) :
    isWhite unit = false := by
  have hall : ∀ unit < 123, isAsciiAlphanumeric unit → isWhite unit = false := by decide
  refine hall unit ?_ h
  simp only [isAsciiAlphanumeric, Bool.or_eq_true, Bool.and_eq_true, decide_eq_true_eq] at h
  omega

/-- Letters and their cases as far as ASCII goes. -/
def ascii : Locale where
  lower text := text.map fun unit => if 65 ≤ unit ∧ unit ≤ 90 then unit + 32 else unit
  upper text := text.map fun unit => if 97 ≤ unit ∧ unit ≤ 122 then unit - 32 else unit
  isLetterOrNumber := isAsciiAlphanumeric
  lower_numbered text n := by
    have hsame : ∀ unit ∈ 32 :: digitUnits n,
        (if 65 ≤ unit ∧ unit ≤ 90 then unit + 32 else unit) = unit := by
      intro unit hunit
      rcases List.mem_cons.mp hunit with rfl | hunit
      · rfl
      · obtain ⟨c, hc, rfl⟩ := List.mem_map.mp hunit
        have hbounds := NumberText.isDigit_bounds (NumberText.isDigit_of_mem_digits hc)
        exact if_neg (by omega)
    rw [List.map_append, List.map_congr_left hsame, List.map_id']
  upper_visible unit h := by
    refine ⟨by simp, fun u hu => ?_⟩
    obtain rfl := List.mem_singleton.mp hu
    simp only
    split_ifs with hlower
    · refine isWhite_of_isAsciiAlphanumeric ?_
      simp only [isAsciiAlphanumeric, Bool.or_eq_true, Bool.and_eq_true, decide_eq_true_eq]
      omega
    · exact h
  letter_visible _ h := isWhite_of_isAsciiAlphanumeric h

/-- No text is a URL. -/
def noHosts : HostNames where
  hostname _ := none
  visible _ _ h := by cases h

def longTitle : Text := List.replicate 60 97

/-- A server reports a title of the greatest length, and there is one of that name already. -/
def longArgs : SuggestArgs := ⟨[], .object .absent (.text longTitle), some [longTitle]⟩

/-- **A number behind a title that has been cut makes it too long.** -/
theorem longTitle_not_sound :
    suggestMcpServerName ascii noHosts longArgs = some ⟨longTitle ++ [32, 50], .server⟩ ∧
    ¬ ∃ name source, suggestMcpServerName ascii noHosts longArgs = some ⟨name, source⟩ ∧
      Sound ascii (longArgs.existingNames.getD []) name := by
  have hname : suggestMcpServerName ascii noHosts longArgs =
      some ⟨longTitle ++ [32, 50], .server⟩ := by decide +kernel
  refine ⟨hname, ?_⟩
  rintro ⟨name, source, hsuggest, hsound⟩
  rw [hname] at hsuggest
  cases hsuggest
  exact absurd hsound.capped (by decide)

end Workbench.Web.McpServerName
