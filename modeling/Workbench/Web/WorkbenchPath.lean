import Workbench.Lib.Percent
import Workbench.Lib.Words

/-!
Paths of a workbench and of its settings.

The settings part of a path is looked for from the left, and it is found where the id stands if the
id begins with the word. What is written behind an id holds no second slash followed by that word,
so every other id, section and entity id is read back.
-/

namespace Workbench.Web.WorkbenchPath

open List Workbench.Lib Workbench.Lib.Percent

/-- `WORKBENCH_SETTINGS_SECTION_IDS` -/
inductive SectionId
  | general
  | members
  | agents
  | danger
  deriving DecidableEq, Repr

def SectionId.text : SectionId → String
  | general => "general"
  | members => "members"
  | agents => "agents"
  | danger => "danger"

def sectionIds : List SectionId := [.general, .members, .agents, .danger]

def WORKBENCH_PATH_PREFIX : String := "/w"

def LEGACY_CHAT_PATH_PREFIX : String := "/chat"

def SETTINGS_SUFFIX : String := "/settings"

/-- `text.indexOf(part)` -/
def indexOf (part : List Char) : List Char → Option ℕ
  | [] => if part.isEmpty then some 0 else none
  | c :: cs => if part.isPrefixOf (c :: cs) then some 0 else (indexOf part cs).map (· + 1)

def decodedOrNull (segment : List Char) : Option String :=
  (decodeURIComponent (String.ofList segment)).toOption

/-! ### Reading -/

def withoutSettingsSuffix (path : List Char) : List Char :=
  match indexOf SETTINGS_SUFFIX.toList path with
  | none => path
  | some settingsIndex =>
    let rest := path.drop (settingsIndex + SETTINGS_SUFFIX.length)
    if rest ≠ [] ∧ rest.head? ≠ some '/' then path else path.take settingsIndex

/-- One round of the loop over the prefixes: what is returned, if the round returns. -/
def idBehind (base : List Char) (front : String) : Option (Option String) :=
  if base = front.toList then some none
  else if !(front ++ "/").toList.isPrefixOf base then none
  else
    let rest := base.drop (front.length + 1)
    if rest = [] then some none else some (decodedOrNull rest)

def workbenchIdFromPath (path : String) : Option String :=
  ([WORKBENCH_PATH_PREFIX, LEGACY_CHAT_PATH_PREFIX].findSome?
    (idBehind (withoutSettingsSuffix path.toList))).join

def workbenchSettingsSectionFromPath (path : String) : Option SectionId :=
  let sectionPrefix := (SETTINGS_SUFFIX ++ "/").toList
  match indexOf sectionPrefix path.toList with
  | none => none
  | some index =>
    let rest := path.toList.drop (index + sectionPrefix.length)
    if rest = [] then none
    else
      let sectionText := rest.takeWhile (· ≠ '/')
      if sectionText = [] then none
      else
        match decodedOrNull sectionText with
        | none => none
        | some decoded => sectionIds.find? (·.text = decoded)

def workbenchSettingsEntityIdFromPath (path : String) (sectionId : SectionId) : Option String :=
  let sectionPrefix := (SETTINGS_SUFFIX ++ "/" ++ sectionId.text ++ "/").toList
  match indexOf sectionPrefix path.toList with
  | none => none
  | some index =>
    let rest := path.toList.drop (index + sectionPrefix.length)
    if rest = [] then none else decodedOrNull rest

/-! ### Writing -/

def workbenchPath : Option String → String
  | none => WORKBENCH_PATH_PREFIX
  | some workbenchId => WORKBENCH_PATH_PREFIX ++ "/" ++ encodeURIComponent workbenchId

def workbenchSettingsPath (workbenchId : String) (sectionId : Option SectionId)
    (entityId : Option String) : String :=
  let base := workbenchPath (some workbenchId) ++ SETTINGS_SUFFIX
  match sectionId with
  | none => base
  | some sectionId =>
    let withSection := base ++ "/" ++ sectionId.text
    match entityId with
    | none => withSection
    | some entityId => withSection ++ "/" ++ encodeURIComponent entityId

/-- What is put into the paths of a workbench is read back from them, and nothing else. -/
structure RoundTrips (workbenchId : String) : Prop where
  id : workbenchIdFromPath (workbenchPath (some workbenchId)) = some workbenchId
  noSection : workbenchSettingsSectionFromPath (workbenchPath (some workbenchId)) = none
  noEntity : ∀ other, workbenchSettingsEntityIdFromPath (workbenchPath (some workbenchId)) other =
    none
  settingsId : ∀ sectionId entityId, entityId ≠ some "" →
    workbenchIdFromPath (workbenchSettingsPath workbenchId sectionId entityId) = some workbenchId
  settingsSection : ∀ sectionId entityId, entityId ≠ some "" →
    workbenchSettingsSectionFromPath (workbenchSettingsPath workbenchId sectionId entityId) =
      sectionId
  settingsEntity : ∀ sectionId entityId other, entityId ≠ some "" →
    workbenchSettingsEntityIdFromPath (workbenchSettingsPath workbenchId sectionId entityId) other =
      if sectionId = some other then entityId else none

variable {part front rest text e tail : List Char} {c : Char} {workbenchId : String}

/-! ### Where a part is found -/

lemma indexOf_here (h : part <+: text) (hne : part ≠ []) : indexOf part text = some 0 := by
  cases text with
  | nil => exact absurd (List.prefix_nil.mp h) hne
  | cons c cs => rw [indexOf, if_pos (List.isPrefixOf_iff_prefix.mpr h)]

lemma indexOf_skip (h : ¬ part <+: c :: rest) :
    indexOf part (c :: rest) = (indexOf part rest).map (· + 1) := by
  rw [indexOf, if_neg (by rwa [List.isPrefixOf_iff_prefix])]

/-- What begins with a slash does not begin in a text that has none. -/
lemma indexOf_front (part rest : List Char) (h : '/' ∉ front) :
    indexOf ('/' :: part) (front ++ rest) =
      (indexOf ('/' :: part) rest).map (· + front.length) := by
  induction front with
  | nil => simp
  | cons c front ih =>
    obtain ⟨hc, hfront⟩ := not_or.mp (mt List.mem_cons.mpr h)
    have hhere : ¬ '/' :: part <+: c :: (front ++ rest) := fun hprefix =>
      hc (List.cons_prefix_cons.mp hprefix).1
    rw [List.cons_append, indexOf_skip hhere, ih hfront, Option.map_map, List.length_cons]
    congr 1

lemma infix_of_indexOf {i : ℕ} (h : indexOf part text = some i) : part <:+: text := by
  induction text generalizing i with
  | nil =>
    rw [indexOf] at h
    split at h
    · next hnil => simp [List.isEmpty_iff.mp hnil]
    · cases h
  | cons c cs ih =>
    rw [indexOf] at h
    split at h
    · next hprefix => exact (List.isPrefixOf_iff_prefix.mp hprefix).isInfix
    · obtain ⟨j, hj, -⟩ := Option.map_eq_some_iff.mp h
      exact (ih hj).trans (List.suffix_cons c cs).isInfix

/-- A text that begins with a slash and has no more of them than the part holds it in front only. -/
lemma indexOf_eq_none (h : ¬ '/' :: part <+: '/' :: rest)
    (hcount : rest.count '/' ≤ part.count '/') : indexOf ('/' :: part) ('/' :: rest) = none := by
  cases hindex : indexOf ('/' :: part) ('/' :: rest) with
  | none => rfl
  | some i =>
    obtain ⟨before, after, hsplit⟩ := infix_of_indexOf hindex
    cases before with
    | nil => exact absurd ⟨after, by simpa using hsplit⟩ h
    | cons c before =>
      obtain ⟨rfl, hrest⟩ := List.cons.inj (by simpa using hsplit)
      simp only [← hrest, List.count_append, List.count_cons_self] at hcount
      omega

/-- A word without a slash stands in front of what is behind it or is cut by nothing but a slash. -/
lemma prefix_of_prefix_append {word : List Char} (hword : '/' ∉ word)
    (hrest : ∀ c ∈ rest.head?, c = '/') (h : word <+: e ++ rest) : word <+: e := by
  obtain ⟨more, hmore⟩ := h
  obtain ⟨u, rfl, -⟩ := Words.prefix_of_append (fun c hc => (ne_of_mem_of_not_mem hc hword)) hrest
    hmore
  exact List.prefix_append _ _

/-- An id that does not begin with the word is passed over. -/
lemma indexOf_path (part rest : List Char) (he : '/' ∉ e)
    (hsettings : ¬ "settings".toList <+: e) (hrest : ∀ c ∈ rest.head?, c = '/') :
    indexOf ("/settings".toList ++ part) ("/w/".toList ++ (e ++ rest)) =
      (indexOf ("/settings".toList ++ part) rest).map (· + (3 + e.length)) := by
  have hid : ¬ "/settings".toList ++ part <+: '/' :: (e ++ rest) := by
    intro hprefix
    have hword : "settings".toList <+: e ++ rest :=
      (List.cons_prefix_cons.mp ((List.prefix_append _ part).trans hprefix)).2
    exact hsettings (prefix_of_prefix_append (by decide) hrest hword)
  have hfirst : ¬ "/settings".toList ++ part <+: '/' :: 'w' :: '/' :: (e ++ rest) := by
    intro hprefix
    have hletter := (List.cons_prefix_cons.mp hprefix).2
    exact absurd (List.cons_prefix_cons.mp hletter).1 (by decide)
  have hletter : ¬ "/settings".toList ++ part <+: 'w' :: '/' :: (e ++ rest) := fun hprefix =>
    absurd (List.cons_prefix_cons.mp hprefix).1 (by decide)
  have hfront := indexOf_front ("settings".toList ++ part) rest he
  have hpath : "/w/".toList ++ (e ++ rest) = '/' :: 'w' :: '/' :: (e ++ rest) := rfl
  have hpart : "/settings".toList ++ part = '/' :: ("settings".toList ++ part) := rfl
  rw [hpath, indexOf_skip hfirst, indexOf_skip hletter, indexOf_skip hid, hpart, hfront]
  simp only [Option.map_map]
  congr 1
  funext i
  simp only [Function.comp_apply]
  omega

/-! ### Reading what was written -/

/-- The id as it stands in a path. -/
def written (workbenchId : String) : List Char := (encodeURIComponent workbenchId).toList

lemma decodedOrNull_written (text : String) : decodedOrNull (written text) = some text := by
  rw [decodedOrNull, written, String.ofList_toList, decodeURIComponent_encodeURIComponent]
  rfl

lemma written_ne_nil {text : String} (h : text ≠ "") : written text ≠ [] := by
  simpa [written] using encodeURIComponent_ne_empty h

/-- What stands behind the id in a settings path. -/
def settingsPart (sectionId : Option SectionId) (entityId : Option String) : List Char :=
  match sectionId, entityId with
  | none, _ => []
  | some sectionId, none => '/' :: sectionId.text.toList
  | some sectionId, some entityId => '/' :: (sectionId.text.toList ++ '/' :: written entityId)

lemma count_section (sectionId : SectionId) :
    ("/" ++ sectionId.text ++ "/").toList.count '/' = 2 := by
  cases sectionId <;> rfl

lemma count_settingsPart (sectionId : SectionId) (entityId : String) :
    (settingsPart (some sectionId) (some entityId)).count '/' = 2 := by
  have htext : sectionId.text.toList.count '/' = 0 := by cases sectionId <;> rfl
  have hentity : (written entityId).count '/' = 0 :=
    List.count_eq_zero.mpr (slash_not_mem_encodeURIComponent entityId)
  rw [settingsPart, List.count_cons_self, List.count_append, List.count_cons_self, htext, hentity]

lemma toList_workbenchPath : (workbenchPath (some workbenchId)).toList =
    "/w/".toList ++ (written workbenchId ++ []) := by
  simp [workbenchPath, written, WORKBENCH_PATH_PREFIX]

lemma toList_workbenchSettingsPath {sectionId : Option SectionId} {entityId : Option String} :
    (workbenchSettingsPath workbenchId sectionId entityId).toList =
      "/w/".toList ++ (written workbenchId ++
        ("/settings".toList ++ settingsPart sectionId entityId)) := by
  cases sectionId <;> cases entityId <;>
    simp [workbenchSettingsPath, workbenchPath, settingsPart, written, WORKBENCH_PATH_PREFIX,
      SETTINGS_SUFFIX]

/-- The id is what stands behind the first of the two prefixes. -/
lemma findSome?_idBehind (hne : e ≠ []) :
    [WORKBENCH_PATH_PREFIX, LEGACY_CHAT_PATH_PREFIX].findSome? (idBehind ("/w/".toList ++ e)) =
      some (decodedOrNull e) := by
  have hpath : "/w/".toList ++ e ≠ WORKBENCH_PATH_PREFIX.toList := by
    intro heq
    have hlength := congrArg List.length heq
    have hpos := List.length_pos_iff.mpr hne
    have hw : "/w/".toList.length = 3 := rfl
    have hw' : WORKBENCH_PATH_PREFIX.toList.length = 2 := rfl
    rw [List.length_append] at hlength
    omega
  have hstarts : (WORKBENCH_PATH_PREFIX ++ "/").toList.isPrefixOf ("/w/".toList ++ e) :=
    List.isPrefixOf_iff_prefix.mpr (List.prefix_append _ _)
  have hdrop : ("/w/".toList ++ e).drop (WORKBENCH_PATH_PREFIX.length + 1) = e := rfl
  have hfirst : idBehind ("/w/".toList ++ e) WORKBENCH_PATH_PREFIX = some (decodedOrNull e) := by
    rw [idBehind, if_neg hpath, hstarts, hdrop]
    simp [hne]
  rw [List.findSome?_cons, hfirst]

/-- The part a settings path ends in begins with the word, and goes on with a slash if at all. -/
lemma head_settingsPart {sectionId : Option SectionId} {entityId : Option String} :
    ∀ c ∈ (settingsPart sectionId entityId).head?, c = '/' := by
  intro c hc
  cases sectionId with
  | none => cases hc
  | some sectionId => cases entityId <;> exact (Option.some.inj hc).symm

lemma withoutSettingsSuffix_path (he : '/' ∉ e) (hsettings : ¬ "settings".toList <+: e) :
    withoutSettingsSuffix ("/w/".toList ++ (e ++ [])) = "/w/".toList ++ e := by
  have hindex := indexOf_path [] [] he hsettings (by simp)
  rw [List.append_nil] at hindex
  rw [withoutSettingsSuffix, show SETTINGS_SUFFIX.toList = "/settings".toList from rfl, hindex]
  simp [indexOf]

/-- What stands behind a part that stands behind the id. -/
lemma drop_path : ("/w/".toList ++ (e ++ (part ++ tail))).drop (0 + (3 + e.length) + part.length) =
    tail := by
  have hlength : ("/w/".toList ++ e).length = 3 + e.length := by
    rw [List.length_append]
    rfl
  have hsplit : "/w/".toList ++ (e ++ (part ++ tail)) = ("/w/".toList ++ e) ++ (part ++ tail) := by
    simp
  rw [hsplit, Nat.zero_add, ← hlength, ← List.drop_drop, List.drop_left, List.drop_left]

lemma take_path : ("/w/".toList ++ (e ++ tail)).take (0 + (3 + e.length)) = "/w/".toList ++ e := by
  have hlength : ("/w/".toList ++ e).length = 3 + e.length := by
    rw [List.length_append]
    rfl
  rw [Nat.zero_add, ← hlength, ← List.append_assoc, List.take_left]

lemma withoutSettingsSuffix_settingsPath (he : '/' ∉ e) (hsettings : ¬ "settings".toList <+: e)
    (htail : ∀ c ∈ tail.head?, c = '/') :
    withoutSettingsSuffix ("/w/".toList ++ (e ++ ("/settings".toList ++ tail))) =
      "/w/".toList ++ e := by
  have hindex := indexOf_path [] ("/settings".toList ++ tail) he hsettings
    (fun c hc => (Option.some.inj hc).symm)
  rw [List.append_nil, indexOf_here (List.prefix_append _ _) (by decide)] at hindex
  have hrest : ("/w/".toList ++ (e ++ ("/settings".toList ++ tail))).drop
      (0 + (3 + e.length) + SETTINGS_SUFFIX.length) = tail := drop_path
  rw [withoutSettingsSuffix, show SETTINGS_SUFFIX.toList = "/settings".toList from rfl, hindex]
  simp only [Option.map_some, hrest, take_path]
  rw [if_neg]
  rintro ⟨hne, hhead⟩
  obtain ⟨c, tail, rfl⟩ := List.exists_cons_of_ne_nil hne
  exact hhead (by rw [htail c rfl]; rfl)

lemma decodedOrNull_section (sectionId : SectionId) :
    decodedOrNull sectionId.text.toList = some sectionId.text ∧
      sectionIds.find? (·.text = sectionId.text) = some sectionId ∧
      '/' ∉ sectionId.text.toList ∧ sectionId.text.toList ≠ [] := by
  cases sectionId <;> decide

lemma workbenchSettingsSectionFromPath_settingsPath (he : '/' ∉ e)
    (hsettings : ¬ "settings".toList <+: e) {path : String} {sectionId : Option SectionId}
    {entityId : Option String}
    (hpath : path.toList = "/w/".toList ++ (e ++ ("/settings".toList ++
      settingsPart sectionId entityId))) :
    workbenchSettingsSectionFromPath path = sectionId := by
  have hindex := indexOf_path "/".toList
    ("/settings".toList ++ settingsPart sectionId entityId) he hsettings
    (fun c hc => (Option.some.inj hc).symm)
  have hprefix : (SETTINGS_SUFFIX ++ "/").toList = "/settings".toList ++ "/".toList := rfl
  cases sectionId with
  | none =>
    have hnone : indexOf ("/settings".toList ++ "/".toList)
        ("/settings".toList ++ settingsPart none entityId) = none := rfl
    rw [workbenchSettingsSectionFromPath, hprefix, hpath, hindex, hnone]
    rfl
  | some sectionId =>
    obtain ⟨hdecoded, hfind, hslash, hne⟩ := decodedOrNull_section sectionId
    obtain ⟨more, hpart, hmore⟩ : ∃ more, settingsPart (some sectionId) entityId =
        "/".toList ++ (sectionId.text.toList ++ more) ∧ ∀ c ∈ more.head?, c = '/' := by
      cases entityId with
      | none => exact ⟨[], by simp [settingsPart], by simp⟩
      | some entityId => exact ⟨'/' :: written entityId, rfl, by simp⟩
    have hhere : indexOf ("/settings".toList ++ "/".toList)
        ("/settings".toList ++ settingsPart (some sectionId) entityId) = some 0 := indexOf_here
      (by rw [hpart, ← List.append_assoc]; exact List.prefix_append _ _) (by decide)
    have hrest : ("/w/".toList ++ (e ++ ("/settings".toList ++ settingsPart (some sectionId)
        entityId))).drop (0 + (3 + e.length) + ("/settings".toList ++ "/".toList).length) =
          sectionId.text.toList ++ more := by
      rw [hpart, ← List.append_assoc "/settings".toList]
      exact drop_path
    have htake : (sectionId.text.toList ++ more).takeWhile (· ≠ '/') = sectionId.text.toList := by
      have hplain : ∀ c ∈ sectionId.text.toList, decide (c ≠ '/') = true := fun c hc =>
        decide_eq_true fun heq => hslash (heq ▸ hc)
      rw [List.takeWhile_append_of_pos hplain]
      cases more with
      | nil => simp
      | cons c more =>
        obtain rfl := hmore c rfl
        simp
    rw [workbenchSettingsSectionFromPath, hprefix, hpath, hindex, hhere]
    simp only [Option.map_some, hrest, htake, hdecoded, hfind, List.append_eq_nil_iff, hne,
      false_and, if_false]

lemma workbenchSettingsEntityIdFromPath_settingsPath (he : '/' ∉ e)
    (hsettings : ¬ "settings".toList <+: e) {path : String} {sectionId : Option SectionId}
    {entityId : Option String} (hentity : entityId ≠ some "")
    (hpath : path.toList = "/w/".toList ++ (e ++ ("/settings".toList ++
      settingsPart sectionId entityId))) (other : SectionId) :
    workbenchSettingsEntityIdFromPath path other =
      if sectionId = some other then entityId else none := by
  have hindex := indexOf_path ("/" ++ other.text ++ "/").toList
    ("/settings".toList ++ settingsPart sectionId entityId) he hsettings
    (fun c hc => (Option.some.inj hc).symm)
  have hprefix : (SETTINGS_SUFFIX ++ "/" ++ other.text ++ "/").toList =
      "/settings".toList ++ ("/" ++ other.text ++ "/").toList := by
    simp [SETTINGS_SUFFIX]
  rw [workbenchSettingsEntityIdFromPath, hprefix, hpath, hindex]
  cases sectionId with
  | none =>
    have hnone : indexOf ("/settings".toList ++ ("/" ++ other.text ++ "/").toList)
        ("/settings".toList ++ settingsPart none entityId) = none := by
      cases other <;> rfl
    rw [hnone]
    rfl
  | some sectionId =>
    cases entityId with
    | none =>
      have hnone : indexOf ("/settings".toList ++ ("/" ++ other.text ++ "/").toList)
          ("/settings".toList ++ settingsPart (some sectionId) none) = none := by
        cases other <;> cases sectionId <;> decide
      rw [hnone]
      simp
    | some entityId =>
      by_cases hsame : sectionId = other
      · subst hsame
        have hpart : settingsPart (some sectionId) (some entityId) =
            ("/" ++ sectionId.text ++ "/").toList ++ written entityId := by
          simp [settingsPart]
        have hhere : indexOf ("/settings".toList ++ ("/" ++ sectionId.text ++ "/").toList)
            ("/settings".toList ++ settingsPart (some sectionId) (some entityId)) = some 0 :=
          indexOf_here (by rw [hpart, ← List.append_assoc]; exact List.prefix_append _ _) (by simp)
        have hrest : ("/w/".toList ++ (e ++ ("/settings".toList ++ settingsPart (some sectionId)
            (some entityId)))).drop (0 + (3 + e.length) +
              ("/settings".toList ++ ("/" ++ sectionId.text ++ "/").toList).length) =
            written entityId := by
          rw [hpart, ← List.append_assoc "/settings".toList]
          exact drop_path
        rw [hhere]
        simp only [Option.map_some, hrest, decodedOrNull_written, if_true]
        rw [if_neg (written_ne_nil fun hempty => hentity (congrArg some hempty))]
      · have hnone : indexOf ("/settings".toList ++ ("/" ++ other.text ++ "/").toList)
            ("/settings".toList ++ settingsPart (some sectionId) (some entityId)) = none := by
          have hdiffer : ¬ "/settings".toList ++ ("/" ++ other.text ++ "/").toList <+:
              "/settings".toList ++ settingsPart (some sectionId) (some entityId) := by
            rw [List.prefix_append_right_inj]
            cases sectionId <;> cases other <;>
              first
              | exact absurd rfl hsame
              | simp [settingsPart, SectionId.text, List.cons_prefix_cons]
          have hslash : ∀ l, "/settings".toList ++ l = '/' :: ("settings".toList ++ l) :=
            fun l => rfl
          rw [hslash, hslash] at hdiffer ⊢
          refine indexOf_eq_none hdiffer ?_
          rw [List.count_append, List.count_append, count_settingsPart, count_section]
        have hother : ¬ some sectionId = some other := fun heq => hsame (Option.some.inj heq)
        rw [hnone, if_neg hother]
        rfl

/-! ### Ids that are read back -/

lemma isUnreserved_settings : ∀ c ∈ "settings".toList, isUnreserved c :=
  List.all_eq_true.mp (by decide)

/-- An id that begins with the word is cut off in front of it, or not cut off at all. -/
lemma not_roundTrips (h : "settings".toList <+: workbenchId.toList) : ¬ RoundTrips workbenchId := by
  intro hround
  obtain ⟨more, hmore⟩ : "settings".toList <+: written workbenchId :=
    (prefix_encodeURIComponent workbenchId isUnreserved_settings).mpr h
  by_cases hnil : more = []
  · have hpath : workbenchPath (some workbenchId) = "/w/settings" := by
      apply String.toList_injective
      rw [toList_workbenchPath, ← hmore, hnil]
      rfl
    have hnone : workbenchIdFromPath "/w/settings" = none := by decide
    have hid := hround.id
    rw [hpath, hnone] at hid
    cases hid
  · -- the word is found in the id and something else than a slash behind it
    have hslash : '/' ∉ more := fun hmem => slash_not_mem_encodeURIComponent workbenchId
      (hmore ▸ List.mem_append_right _ hmem : '/' ∈ written workbenchId)
    have hkept : withoutSettingsSuffix ("/w/".toList ++ (written workbenchId ++
        ("/settings".toList ++ []))) =
        "/w/".toList ++ (written workbenchId ++ "/settings".toList) := by
      have hpath : "/w/".toList ++ (written workbenchId ++ ("/settings".toList ++ [])) =
          '/' :: 'w' :: ("/settings".toList ++ (more ++ "/settings".toList)) := by
        rw [← hmore]
        simp
      have hfirst : ¬ "/settings".toList <+:
          '/' :: 'w' :: ("/settings".toList ++ (more ++ "/settings".toList)) := fun hprefix =>
        absurd (List.cons_prefix_cons.mp (List.cons_prefix_cons.mp hprefix).2).1 (by decide)
      have hsecond : ¬ "/settings".toList <+:
          'w' :: ("/settings".toList ++ (more ++ "/settings".toList)) := fun hprefix =>
        absurd (List.cons_prefix_cons.mp hprefix).1 (by decide)
      have hindex : indexOf "/settings".toList ("/settings".toList ++
          (more ++ "/settings".toList)) = some 0 :=
        indexOf_here (List.prefix_append _ _) (by decide)
      have hrest : ('/' :: 'w' :: ("/settings".toList ++ (more ++ "/settings".toList))).drop
          (0 + 1 + 1 + SETTINGS_SUFFIX.length) = more ++ "/settings".toList := rfl
      obtain ⟨c, cs, rfl⟩ := List.exists_cons_of_ne_nil hnil
      have hhead : c ≠ '/' := fun heq => hslash (by simp [heq])
      rw [hpath, withoutSettingsSuffix, show SETTINGS_SUFFIX.toList = "/settings".toList from rfl,
        indexOf_skip hfirst, indexOf_skip hsecond, hindex]
      simp only [Option.map_some, hrest]
      rw [if_pos ⟨by simp, by simpa using hhead⟩, ← hpath, List.append_nil]
    have hread : decodedOrNull (written workbenchId ++ "/settings".toList) =
        some (workbenchId ++ "/settings") := by
      have hsuffix : decodeFrom [] 0 "/settings".toList = some "/settings".toList := by decide
      rw [decodedOrNull, decodeURIComponent, String.toList_ofList, written,
        toList_encodeURIComponent, decodeFrom_written, hsuffix]
      simp [Except.toOption]
    have hid := hround.settingsId none none (by simp)
    have hne : written workbenchId ++ "/settings".toList ≠ [] := by simp
    rw [workbenchIdFromPath, toList_workbenchSettingsPath, settingsPart, hkept,
      findSome?_idBehind hne, hread] at hid
    have hlength := congrArg String.length (Option.some.inj hid)
    rw [String.length_append] at hlength
    have hword : "/settings".length = 9 := by decide
    omega

/-- **The paths of a workbench are read back** exactly when its id does not begin with the word
the settings part begins with. -/
theorem roundTrips_iff (h : workbenchId ≠ "") :
    RoundTrips workbenchId ↔ ¬ "settings".toList <+: workbenchId.toList := by
  constructor
  · exact fun hround hprefix => not_roundTrips hprefix hround
  · intro hid
    have he : '/' ∉ written workbenchId := slash_not_mem_encodeURIComponent workbenchId
    have hsettings : ¬ "settings".toList <+: written workbenchId := fun hprefix =>
      hid ((prefix_encodeURIComponent workbenchId isUnreserved_settings).mp hprefix)
    have hread : (some (some workbenchId)).join = some workbenchId := rfl
    refine ⟨?_, ?_, ?_, ?_, ?_, ?_⟩
    · rw [workbenchIdFromPath, toList_workbenchPath, withoutSettingsSuffix_path he hsettings,
        findSome?_idBehind (written_ne_nil h), decodedOrNull_written, hread]
    · have hindex := indexOf_path "/".toList [] he hsettings (by simp)
      rw [workbenchSettingsSectionFromPath, toList_workbenchPath,
        show (SETTINGS_SUFFIX ++ "/").toList = "/settings".toList ++ "/".toList from rfl, hindex]
      rfl
    · intro other
      have hindex := indexOf_path ("/" ++ other.text ++ "/").toList [] he hsettings
        (by simp)
      have hprefix : (SETTINGS_SUFFIX ++ "/" ++ other.text ++ "/").toList =
          "/settings".toList ++ ("/" ++ other.text ++ "/").toList := by
        simp [SETTINGS_SUFFIX]
      rw [workbenchSettingsEntityIdFromPath, toList_workbenchPath, hprefix, hindex]
      rfl
    · intro sectionId entityId _
      rw [workbenchIdFromPath, toList_workbenchSettingsPath,
        withoutSettingsSuffix_settingsPath he hsettings head_settingsPart,
        findSome?_idBehind (written_ne_nil h), decodedOrNull_written, hread]
    · exact fun sectionId entityId _ => workbenchSettingsSectionFromPath_settingsPath he hsettings
        toList_workbenchSettingsPath
    · exact fun sectionId entityId other hentity =>
        workbenchSettingsEntityIdFromPath_settingsPath he hsettings hentity
          toList_workbenchSettingsPath other

theorem roundTrips_iff_umlaut : RoundTrips "ünterwegs settings" ↔
    ¬ "settings".toList <+: "ünterwegs settings".toList :=
  roundTrips_iff (by decide)

/-- **The workbench `settings` has no path.** -/
theorem settings_has_no_path : ¬ RoundTrips "settings" := by
  intro hround
  have hnone : workbenchIdFromPath (workbenchPath (some "settings")) = none := by decide
  have hid := hround.id
  rw [hnone] at hid
  cases hid

end Workbench.Web.WorkbenchPath
