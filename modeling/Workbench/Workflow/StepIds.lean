import Mathlib.Data.List.Infix
import Workbench.Lib.Json
import Workbench.Lib.NumberText
import Workbench.Workflow.Definition
import Workbench.Workflow.RunState

/-!
The ids of steps, and the ids that are made of them.

An iteration of a step is named with its index in brackets. The run of a body is named after the
run, the step and the index, with two underscores in between, and a body within it after it again.
-/

namespace Workbench.Workflow

open Workbench.Lib Workbench.Lib.NumberText

def isStepIdChar (c : Char) : Bool :=
  ('a' ≤ c && c ≤ 'z') || ('A' ≤ c && c ≤ 'Z') || ('0' ≤ c && c ≤ '9') || c = '_' || c = '-'

def validateStepId (stepId : String) (primitive : Primitive) : Except String Unit := do
  refuse (primitive.id ≠ "" ∧ primitive.id ≠ stepId) ("step " ++ stepId ++
    " carries a conflicting embedded id " ++ primitive.id ++ "; the record key is what every " ++
    "id-derived table is built on, so the two must name the same step")
  refuse (stepId = "") "step ids cannot be empty"
  refuse (¬ stepId.toList.all isStepIdChar) ("step id " ++ String.ofList (Json.quote stepId) ++
    " must match ^[a-zA-Z0-9_-]+$")
  refuse (['_', '_'] <:+: stepId.toList) ("step id " ++ String.ofList (Json.quote stepId) ++
    " must not contain \"__\"; it becomes a segment of a runtime id joined by \"__\"")

def validateStepIds (steps : Steps) : Except String Unit :=
  steps.entries.forM fun (stepId, primitive) => validateStepId stepId primitive

/-! ### Iterations -/

def scopedStepId (base : String) (index : ℕ) : String := base ++ "[" ++ toString index ++ "]"

/-- The id without an index in brackets at its end. -/
def baseStepId (stepId : String) : String :=
  match stepId.toList.reverse with
  | ']' :: rest =>
    match rest.takeWhile Char.isDigit, rest.dropWhile Char.isDigit with
    | _ :: _, '[' :: base => String.ofList base.reverse
    | _, _ => stepId
  | _ => stepId

/-! ### Bodies -/

def loopBodyRunId (runId loopId : String) (index : ℕ) : String :=
  runId ++ "__" ++ loopId ++ "__" ++ toString index

def sectionBodyRunId (parentRunId sectionId : String) (eventIndex : ℕ) : String :=
  parentRunId ++ "__" ++ sectionId ++ "__" ++ toString eventIndex

/-- A decimal numeral without a leading zero. -/
def canonicalEventIndex (text : List Char) : Option ℕ :=
  match text with
  | ['0'] => some 0
  | c :: _ => if c ≠ '0' ∧ text.all Char.isDigit then some (Nat.ofDigitChars 10 text 0) else none
  | [] => none

def legacyBodyRunId (sectionId : String) (eventIndex : ℕ) : String :=
  sectionId ++ "__" ++ toString eventIndex

def sectionBodyEventIndex (parentRunId sectionId childRunId : String) : Option ℕ :=
  let mintedPrefix := (parentRunId ++ "__" ++ sectionId ++ "__").toList
  let legacyPrefix := (sectionId ++ "__").toList
  if mintedPrefix <+: childRunId.toList then
    canonicalEventIndex (childRunId.toList.drop mintedPrefix.length)
  else if legacyPrefix <+: childRunId.toList then
    canonicalEventIndex (childRunId.toList.drop legacyPrefix.length)
  else none

def isSpawnedBy (children : OrderedMap String ChildState) (sectionId childRunId : String) : Bool :=
  (children.get childRunId).any fun child => child.spawnedBy = sectionId

def recordedSectionBodyRunId (parentRunId sectionId : String) (eventIndex : ℕ)
    (children : OrderedMap String ChildState) : Except String String :=
  let minted := sectionBodyRunId parentRunId sectionId eventIndex
  let legacy := legacyBodyRunId sectionId eventIndex
  if isSpawnedBy children sectionId minted ∧ isSpawnedBy children sectionId legacy then
    .error ("onTrigger " ++ sectionId ++ " event " ++ toString eventIndex ++ " records both " ++
      minted ++ " and " ++ legacy)
  else if isSpawnedBy children sectionId minted then .ok minted
  else if isSpawnedBy children sectionId legacy then .ok legacy
  else .ok minted

/-- The higher of the indexes so far and that of one more child, if the section spawned it. -/
def higherEventIndex (parentRunId sectionId : String) (eventIndex : Option ℕ)
    (entry : String × ChildState) : Except String (Option ℕ) :=
  if entry.2.spawnedBy ≠ sectionId then .ok eventIndex
  else
    match sectionBodyEventIndex parentRunId sectionId entry.1 with
    | none => .error ("onTrigger " ++ sectionId ++ " child " ++ entry.1 ++
        " is not a section body run id")
    | some parsed =>
      if eventIndex.all (· < parsed) then .ok (some parsed) else .ok eventIndex

def highestSectionEventIndex (parentRunId sectionId : String)
    (children : OrderedMap String ChildState) : Except String (Option ℕ) :=
  children.entries.foldlM (higherEventIndex parentRunId sectionId) none

/-! ### Numerals -/

lemma digitChar_toNat_sub {c : Char} (h : c.isDigit) : (c.toNat - 48).digitChar = c := by
  have hbounds := isDigit_bounds h
  have hten : c.toNat - 48 < 10 := by omega
  apply Char.toNat_inj.mp
  have hvalue := Nat.toNat_digitChar_sub_48_of_lt_ten hten
  have hdigit : (c.toNat - 48).digitChar.isDigit := by simp [Nat.isDigit_digitChar, hten]
  have hbounds' := isDigit_bounds hdigit
  omega

/-- Digits that do not begin with a zero are those of their value. -/
lemma digits_ofDigitChars {cs : List Char} (hne : cs ≠ []) (hdigits : ∀ c ∈ cs, c.isDigit)
    (hhead : cs.head? ≠ some '0') :
    0 < Nat.ofDigitChars 10 cs 0 ∧ digits (Nat.ofDigitChars 10 cs 0) = cs := by
  induction cs using List.reverseRecOn with
  | nil => exact absurd rfl hne
  | append_singleton cs c ih =>
    have hc : c.isDigit := hdigits c (by simp)
    have hbounds := isDigit_bounds hc
    have hvalue : Nat.ofDigitChars 10 (cs ++ [c]) 0 =
        10 * Nat.ofDigitChars 10 cs 0 + (c.toNat - 48) := by
      rw [Nat.ofDigitChars_append, Nat.ofDigitChars_cons, Nat.ofDigitChars_nil]
      rfl
    rw [hvalue]
    by_cases hnil : cs = []
    · subst hnil
      have hzero : c ≠ '0' := by simpa using hhead
      have hpos : c.toNat - 48 ≠ 0 := by
        intro h
        rw [← digitChar_toNat_sub hc, h] at hzero
        exact hzero rfl
      rw [Nat.ofDigitChars_nil, digits, Nat.toDigits_of_lt_base (by omega)]
      simp only [Nat.mul_zero, Nat.zero_add, digitChar_toNat_sub hc, List.nil_append]
      exact ⟨by omega, trivial⟩
    · obtain ⟨hpos, hbefore⟩ := ih hnil (fun d hd => hdigits d (by simp [hd]))
        (by rwa [List.head?_append_of_ne_nil _ hnil] at hhead)
      have hdiv : (10 * Nat.ofDigitChars 10 cs 0 + (c.toNat - 48)) / 10 =
          Nat.ofDigitChars 10 cs 0 := by omega
      have hmod : (10 * Nat.ofDigitChars 10 cs 0 + (c.toNat - 48)) % 10 = c.toNat - 48 := by omega
      refine ⟨by omega, ?_⟩
      rw [digits, Nat.toDigits_of_base_le (by decide) (by omega), hdiv, hmod, ← digits, hbefore,
        digitChar_toNat_sub hc]

lemma canonicalEventIndex_eq_some {text : List Char} {n : ℕ} :
    canonicalEventIndex text = some n ↔ text = digits n := by
  constructor
  · intro h
    unfold canonicalEventIndex at h
    split at h
    · obtain rfl := Option.some.inj h
      rfl
    · rename_i c rest _
      split_ifs at h with hcanonical
      obtain rfl := Option.some.inj h
      obtain ⟨hzero, hall⟩ := hcanonical
      exact (digits_ofDigitChars (List.cons_ne_nil c rest) (List.all_eq_true.mp hall)
        (by simpa using hzero)).2.symm
    · cases h
  · rintro rfl
    by_cases hn : n = 0
    · subst hn
      rfl
    · obtain ⟨c, rest, hcons⟩ := List.exists_cons_of_ne_nil (digits_ne_nil n)
      have hzero : c ≠ '0' := fun hc => hn (eq_zero_of_head_digits (by rw [hcons, hc]; rfl))
      have hall : (c :: rest).all Char.isDigit :=
        List.all_eq_true.mpr fun d hd => isDigit_of_mem_digits (hcons ▸ hd)
      have hvalue : Nat.ofDigitChars 10 (c :: rest) 0 = n := by
        rw [← hcons, digits, Nat.ofDigitChars_ten_toDigits]
      rw [hcons, canonicalEventIndex]
      · rw [if_pos ⟨hzero, hall⟩, hvalue]
      · rintro rfl
        exact absurd rfl hzero

/-! ### Reading the index back -/

variable {parentRunId sectionId childRunId : String} {n : ℕ}
  {children : OrderedMap String ChildState}

lemma toList_sectionBodyRunId : (sectionBodyRunId parentRunId sectionId n).toList =
    (parentRunId ++ "__" ++ sectionId ++ "__").toList ++ digits n := by
  simp [sectionBodyRunId, digits]

lemma toList_legacyBodyRunId : (legacyBodyRunId sectionId n).toList =
    (sectionId ++ "__").toList ++ digits n := by
  simp [legacyBodyRunId, digits]

/-- What stands behind a prefix. -/
lemma drop_eq_iff {α : Type} {before text back : List α} (h : before <+: text) :
    text.drop before.length = back ↔ text = before ++ back := by
  obtain ⟨rest, rfl⟩ := h
  rw [List.drop_left, List.append_cancel_left_eq]

/-- **The index of a body is read back** from the id that was made for it, or from one of the older
form; an id that begins like one that is made is not taken for an older one. -/
theorem sectionBodyEventIndex_eq_some :
    sectionBodyEventIndex parentRunId sectionId childRunId = some n ↔
      childRunId = sectionBodyRunId parentRunId sectionId n ∨
        childRunId = legacyBodyRunId sectionId n ∧
          ¬ (parentRunId ++ "__" ++ sectionId ++ "__").toList <+: childRunId.toList := by
  have hminted : childRunId = sectionBodyRunId parentRunId sectionId n ↔
      childRunId.toList = (parentRunId ++ "__" ++ sectionId ++ "__").toList ++ digits n := by
    rw [← toList_sectionBodyRunId, String.toList_inj]
  have hlegacy : childRunId = legacyBodyRunId sectionId n ↔
      childRunId.toList = (sectionId ++ "__").toList ++ digits n := by
    rw [← toList_legacyBodyRunId, String.toList_inj]
  rw [hminted, hlegacy, sectionBodyEventIndex]
  split_ifs with hbegins hold
  · rw [canonicalEventIndex_eq_some, drop_eq_iff hbegins]
    exact ⟨.inl, fun h => h.resolve_right fun hold => hold.2 hbegins⟩
  · rw [canonicalEventIndex_eq_some, drop_eq_iff hold]
    constructor
    · intro h
      exact .inr ⟨h, hbegins⟩
    · rintro (h | ⟨h, -⟩)
      · exact absurd (h ▸ List.prefix_append _ _) hbegins
      · exact h
  · simp only [false_iff, not_or, not_and]
    constructor
    · intro h
      exact absurd (h ▸ List.prefix_append _ _) hbegins
    · intro h
      exact absurd (h ▸ List.prefix_append _ _) hold

/-- The index so far is the highest of the children that the section spawned. -/
def IsHighest (parentRunId sectionId : String) (entries : List (String × ChildState))
    (eventIndex : Option ℕ) : Prop :=
  (∀ entry ∈ entries, entry.2.spawnedBy = sectionId → ∃ n highest,
    sectionBodyEventIndex parentRunId sectionId entry.1 = some n ∧
      eventIndex = some highest ∧ n ≤ highest) ∧
  ∀ highest, eventIndex = some highest → ∃ entry ∈ entries, entry.2.spawnedBy = sectionId ∧
    sectionBodyEventIndex parentRunId sectionId entry.1 = some highest

lemma IsHighest.concat {entries : List (String × ChildState)} {entry : String × ChildState}
    {eventIndex after : Option ℕ} (h : IsHighest parentRunId sectionId entries eventIndex)
    (hafter : higherEventIndex parentRunId sectionId eventIndex entry = .ok after) :
    IsHighest parentRunId sectionId (entries ++ [entry]) after := by
  obtain ⟨hall, hsome⟩ := h
  unfold higherEventIndex at hafter
  split_ifs at hafter with hspawned
  · obtain rfl := Except.ok.inj hafter
    constructor
    · intro other hother hby
      rcases List.mem_append.mp hother with hother | hother
      · exact hall other hother hby
      · exact absurd (List.mem_singleton.mp hother ▸ hby) hspawned
    · intro highest hhighest
      obtain ⟨other, hother, hparsed⟩ := hsome highest hhighest
      exact ⟨other, List.mem_append_left _ hother, hparsed⟩
  · have hby := not_not.mp hspawned
    cases hparsed : sectionBodyEventIndex parentRunId sectionId entry.1 with
    | none =>
      rw [hparsed] at hafter
      cases hafter
    | some parsed =>
      simp only [hparsed] at hafter
      split_ifs at hafter with hhigher
      · obtain rfl := Except.ok.inj hafter
        refine ⟨?_, fun highest hhighest => ⟨entry, by simp, hby, ?_⟩⟩
        · intro other hother hotherBy
          rcases List.mem_append.mp hother with hother | hother
          · obtain ⟨n, highest, hn, rfl, hle⟩ := hall other hother hotherBy
            have hlt : highest < parsed := by simpa using hhigher
            exact ⟨n, parsed, hn, rfl, by omega⟩
          · obtain rfl := List.mem_singleton.mp hother
            exact ⟨parsed, parsed, hparsed, rfl, Nat.le_refl _⟩
        · rw [hparsed, hhighest]
      · obtain rfl := Except.ok.inj hafter
        cases eventIndex with
        | none => simp at hhigher
        | some highest =>
          have hle : parsed ≤ highest := by simpa using hhigher
          constructor
          · intro other hother hotherBy
            rcases List.mem_append.mp hother with hother | hother
            · exact hall other hother hotherBy
            · obtain rfl := List.mem_singleton.mp hother
              exact ⟨parsed, highest, hparsed, rfl, hle⟩
          · intro most hmost
            obtain ⟨other, hother, hrest⟩ := hsome most hmost
            exact ⟨other, List.mem_append_left _ hother, hrest⟩

lemma isHighest_foldlM {before entries : List (String × ChildState)} {eventIndex after : Option ℕ}
    (h : IsHighest parentRunId sectionId before eventIndex)
    (hafter : entries.foldlM (higherEventIndex parentRunId sectionId) eventIndex = .ok after) :
    IsHighest parentRunId sectionId (before ++ entries) after := by
  induction entries generalizing before eventIndex with
  | nil =>
    obtain rfl := Except.ok.inj hafter
    rwa [List.append_nil]
  | cons entry entries ih =>
    rw [List.foldlM_cons] at hafter
    cases hstep : higherEventIndex parentRunId sectionId eventIndex entry with
    | error message =>
      rw [hstep] at hafter
      cases hafter
    | ok next =>
      rw [hstep] at hafter
      rw [List.append_cons]
      exact ih (h.concat hstep) hafter

/-- **The section goes on from the body it recorded last**: where the search for the highest index
ends with one, the id that is looked up for it is that of a child which the section spawned. -/
theorem recorded_of_highest
    (h : highestSectionEventIndex parentRunId sectionId children = .ok (some n))
    {recorded : String}
    (hrecorded : recordedSectionBodyRunId parentRunId sectionId n children = .ok recorded) :
    isSpawnedBy children sectionId recorded ∧
      ∀ childRunId child, children.get childRunId = some child → child.spawnedBy = sectionId →
        ∃ m ≤ n, childRunId = sectionBodyRunId parentRunId sectionId m ∨
          childRunId = legacyBodyRunId sectionId m := by
  have hhighest : IsHighest parentRunId sectionId children.entries (some n) := by
    have hnone : IsHighest parentRunId sectionId [] none := ⟨by simp, by simp⟩
    exact isHighest_foldlM hnone h
  obtain ⟨hall, hsome⟩ := hhighest
  constructor
  · obtain ⟨⟨id, child⟩, hmem, hby, hparsed⟩ := hsome n rfl
    have hspawned : isSpawnedBy children sectionId id := by
      have hchild : child.spawnedBy = sectionId := hby
      simp [isSpawnedBy, OrderedMap.get_eq_some.2 hmem, hchild]
    have hid := sectionBodyEventIndex_eq_some.1 hparsed
    unfold recordedSectionBodyRunId at hrecorded
    simp only at hrecorded
    split_ifs at hrecorded with hboth hminted hlegacy
    · exact Except.ok.inj hrecorded ▸ hminted
    · exact Except.ok.inj hrecorded ▸ hlegacy
    · rcases hid with rfl | ⟨rfl, -⟩
      · exact absurd hspawned hminted
      · exact absurd hspawned hlegacy
  · intro childRunId child hget hby
    obtain ⟨m, highest, hm, hn, hle⟩ :=
      hall (childRunId, child) (OrderedMap.get_eq_some.1 hget) hby
    obtain rfl := Option.some.inj hn
    exact ⟨m, hle, (sectionBodyEventIndex_eq_some.1 hm).imp_right And.left⟩

/-- The child of a section that was spawned for its third event. -/
def sampleChildren : OrderedMap String ChildState :=
  OrderedMap.empty.set "r__fetch__2" ⟨"r__fetch__2", "fetch", false, none, false⟩

theorem recorded_of_highest_sample : isSpawnedBy sampleChildren "fetch" "r__fetch__2" ∧
    ∀ childRunId child, sampleChildren.get childRunId = some child → child.spawnedBy = "fetch" →
      ∃ m ≤ 2, childRunId = sectionBodyRunId "r" "fetch" m ∨
        childRunId = legacyBodyRunId "fetch" m :=
  recorded_of_highest rfl rfl

/-! ### Bodies within bodies -/

/-- The id of the run of a body that is within others, from the outermost. -/
def nestedRunId (runId : String) (bodies : List (String × ℕ)) : String :=
  bodies.foldl (fun runId body => loopBodyRunId runId body.1 body.2) runId

/-- What the bodies add to the id. -/
def nestedPath (bodies : List (String × ℕ)) : List Char :=
  bodies.flatMap fun body => ['_', '_'] ++ body.1.toList ++ ['_', '_'] ++ digits body.2

lemma nestedPath_cons {id : String} {n : ℕ} {bodies : List (String × ℕ)} :
    nestedPath ((id, n) :: bodies) =
      '_' :: '_' :: (id.toList ++ '_' :: '_' :: (digits n ++ nestedPath bodies)) := by
  simp [nestedPath]

lemma toList_nestedRunId {runId : String} {bodies : List (String × ℕ)} :
    (nestedRunId runId bodies).toList = runId.toList ++ nestedPath bodies := by
  induction bodies generalizing runId with
  | nil => simp [nestedRunId, nestedPath]
  | cons body bodies ih =>
    rw [nestedRunId, List.foldl_cons, ← nestedRunId, ih]
    simp [loopBodyRunId, nestedPath, digits]

/-- No text without two underscores goes on into two underscores and another character. -/
lemma eq_nil_of_underscores {a u back back' : List Char} {c c' : Char} (hc : c ≠ '_')
    (ha : ¬ ['_', '_'] <:+: a ++ u)
    (h : '_' :: '_' :: c :: back = u ++ '_' :: '_' :: c' :: back') : u = [] := by
  match u with
  | [] => rfl
  | [_] =>
    simp only [List.cons_append, List.nil_append, List.cons.injEq] at h
    exact absurd h.2.2.1 hc
  | d :: e :: u =>
    simp only [List.cons_append, List.cons.injEq] at h
    obtain ⟨rfl, rfl, -⟩ := h
    exact absurd ⟨a, u, by simp⟩ ha

lemma append_underscores_inj {a b back back' : List Char} {c c' : Char} (hc : c ≠ '_')
    (hc' : c' ≠ '_') (ha : ¬ ['_', '_'] <:+: a) (hb : ¬ ['_', '_'] <:+: b)
    (h : a ++ '_' :: '_' :: c :: back = b ++ '_' :: '_' :: c' :: back') :
    a = b ∧ c :: back = c' :: back' := by
  rcases List.append_eq_append_iff.mp h with ⟨u, rfl, hu⟩ | ⟨u, rfl, hu⟩
  · obtain rfl := eq_nil_of_underscores hc hb hu
    simpa using hu
  · obtain rfl := eq_nil_of_underscores hc' ha hu
    simpa [eq_comm] using hu

lemma digits_append_inj {m n : ℕ} {back back' : List Char} (hback : ∀ c ∈ back.head?, c = '_')
    (hback' : ∀ c ∈ back'.head?, c = '_') (h : digits m ++ back = digits n ++ back') :
    m = n ∧ back = back' := by
  have hstop : ∀ {rest : List Char}, (∀ c ∈ rest.head?, c = '_') →
      rest.takeWhile Char.isDigit = [] ∧ rest.dropWhile Char.isDigit = rest := by
    intro rest hrest
    cases rest with
    | nil => exact ⟨rfl, rfl⟩
    | cons c rest =>
      obtain rfl := hrest c rfl
      exact ⟨rfl, rfl⟩
  have hdigits : ∀ {k : ℕ}, ∀ c ∈ digits k, c.isDigit := fun c hc => isDigit_of_mem_digits hc
  have htake := congrArg (List.takeWhile Char.isDigit) h
  have hdrop := congrArg (List.dropWhile Char.isDigit) h
  rw [List.takeWhile_append_of_pos hdigits, List.takeWhile_append_of_pos hdigits,
    (hstop hback).1, (hstop hback').1, List.append_nil, List.append_nil] at htake
  rw [List.dropWhile_append_of_pos hdigits, List.dropWhile_append_of_pos hdigits,
    (hstop hback).2, (hstop hback').2] at hdrop
  have hvalue := congrArg (Nat.ofDigitChars 10 · 0) htake
  simp only [digits, Nat.ofDigitChars_ten_toDigits] at hvalue
  exact ⟨hvalue, hdrop⟩

lemma head?_nestedPath {bodies : List (String × ℕ)} : ∀ c ∈ (nestedPath bodies).head?, c = '_' := by
  cases bodies with
  | nil => simp [nestedPath]
  | cons body bodies => simp [nestedPath]

/-- The id is one of a record of steps that was validated. -/
def IsValidated (id : String) : Prop :=
  ∃ steps : Steps, validateStepIds steps = .ok () ∧ id ∈ steps.keys

lemma no_underscores_of_isValidated {id : String} (h : IsValidated id) :
    ¬ ['_', '_'] <:+: id.toList := by
  obtain ⟨steps, hvalid, hkey⟩ := h
  obtain ⟨primitive, hget⟩ := OrderedMap.mem_keys.1 hkey
  have hstep := forM_ok.1 hvalid (id, primitive) (OrderedMap.get_eq_some.1 hget)
  simp only [validateStepId, bind_ok, refuse_ok] at hstep
  exact hstep.2.2.2

/-- **No two bodies have one id**, however deep they are within the run. -/
theorem nestedRunId_injective {runId : String} {bodies bodies' : List (String × ℕ)}
    (hids : ∀ body ∈ bodies, IsValidated body.1) (hids' : ∀ body ∈ bodies', IsValidated body.1)
    (h : nestedRunId runId bodies = nestedRunId runId bodies') : bodies = bodies' := by
  have hpath : nestedPath bodies = nestedPath bodies' := by
    have htext := congrArg String.toList h
    rw [toList_nestedRunId, toList_nestedRunId] at htext
    exact List.append_cancel_left htext
  clear h
  induction bodies generalizing bodies' with
  | nil =>
    cases bodies' with
    | nil => rfl
    | cons body bodies' => simp [nestedPath] at hpath
  | cons body bodies ih =>
    cases bodies' with
    | nil => simp [nestedPath] at hpath
    | cons body' bodies' =>
      obtain ⟨id, m⟩ := body
      obtain ⟨id', n⟩ := body'
      obtain ⟨c, rest, hdigits⟩ := List.exists_cons_of_ne_nil (digits_ne_nil m)
      obtain ⟨c', rest', hdigits'⟩ := List.exists_cons_of_ne_nil (digits_ne_nil n)
      have hc : c ≠ '_' := fun h => absurd (isDigit_of_mem_digits (hdigits ▸ List.mem_cons_self))
        (by rw [h]; decide)
      have hc' : c' ≠ '_' := fun h => absurd
        (isDigit_of_mem_digits (hdigits' ▸ List.mem_cons_self)) (by rw [h]; decide)
      rw [nestedPath_cons, nestedPath_cons, hdigits, hdigits'] at hpath
      simp only [List.cons_append, List.cons.injEq, true_and] at hpath
      obtain ⟨hid, hrest⟩ := append_underscores_inj hc hc'
        (no_underscores_of_isValidated (hids (id, m) List.mem_cons_self))
        (no_underscores_of_isValidated (hids' (id', n) List.mem_cons_self)) hpath
      rw [← List.cons_append, ← List.cons_append, ← hdigits, ← hdigits'] at hrest
      obtain ⟨rfl, htail⟩ := digits_append_inj head?_nestedPath head?_nestedPath hrest
      obtain rfl : id = id' := String.toList_inj.mp hid
      rw [ih (fun body hb => hids body (List.mem_cons_of_mem _ hb))
        (fun body hb => hids' body (List.mem_cons_of_mem _ hb)) htail]

lemma isValidated_sample {body : String × ℕ} (h : body ∈ [("fetch", 1), ("use", 2)]) :
    IsValidated body.1 := by
  simp only [List.mem_cons, List.not_mem_nil, or_false] at h
  refine ⟨sampleSteps, rfl, ?_⟩
  rcases h with rfl | rfl <;> decide

theorem nestedRunId_injective_sample :
    [("fetch", 1), ("use", 2)] = [("fetch", 1)] ++ [("use", 2)] :=
  @nestedRunId_injective "r" _ _ (fun _ => isValidated_sample) (fun _ => isValidated_sample) rfl

/-- The step of an iteration is read back from its id, whatever the step. -/
theorem baseStepId_scopedStepId (base : String) (index : ℕ) :
    baseStepId (scopedStepId base index) = base := by
  have htext : (scopedStepId base index).toList.reverse =
      ']' :: ((digits index).reverse ++ '[' :: base.toList.reverse) := by
    simp [scopedStepId, digits]
  have hdigits : ∀ c ∈ (digits index).reverse, c.isDigit :=
    fun c hc => isDigit_of_mem_digits (List.mem_reverse.mp hc)
  obtain ⟨c, rest, hcons⟩ := List.exists_cons_of_ne_nil
    (List.reverse_ne_nil_iff.mpr (digits_ne_nil index))
  unfold baseStepId
  rw [htext]
  simp only [List.takeWhile_append_of_pos hdigits, List.dropWhile_append_of_pos hdigits]
  simp [hcons]

end Workbench.Workflow
