import Mathlib.Data.List.Perm.Basic
import Workbench.Lib.Double
import Workbench.Lib.OrderedMap
import Workbench.Provisioner.Requests

/-!
Finding the units of an allocation by what its directory holds.

Generations and pids are JavaScript numbers here, written with `String(n)` and read with
`Number(text)`: a large one is written with an exponent, and a text with another spelling, or with
more digits than a number has, is read as the number next to it. A unit of generation `0` is started
like any other, but its directory is not taken for one of a unit.
-/

namespace Workbench.Provisioner.Discovery

open Workbench.Lib Workbench.Lib.NumberText Workbench.Lib.Double

/-- The positive integer that `Number(text)` is, if it is one. -/
def positiveOf (text : List Char) : Option ℕ :=
  match numberOf text with
  | some n => if 0 < n then some n.toNat else none
  | none => none

def externalRefOf (allocationId : String) (generation pid : ℕ) : String :=
  allocationId ++ ":" ++ String.ofList (numberText generation) ++ ":" ++
    String.ofList (numberText pid)

/-- The name of the directory `unitDirOf` resolves to. -/
def unitDirName (generation : ℕ) : String := unitDirPrefix ++ String.ofList (numberText generation)

def generationOf (entryName : String) : Option ℕ :=
  if unitDirPrefix.toList.isPrefixOf entryName.toList then
    positiveOf (entryName.toList.drop unitDirPrefix.length)
  else none

/-- What reading the pid file of an entry comes to. -/
inductive PidFile
  | missing
  | text (raw : List Char)
  /-- the read fails, as it does where the entry is no directory -/
  | unreadable (failure : Failure)
  deriving DecidableEq, Repr

/-- The directory of an allocation: its entries, each with its pid file. -/
structure Directory where
  pidFiles : OrderedMap String PidFile
  /-- why it cannot be listed, if it cannot -/
  unlistable : Option Failure

def allocationDirOf (allocationsDir : Path) (allocationId : String) : Except OperationError Path :=
  if matchesAllocationIdPattern allocationId then
    .ok (Path.resolve allocationsDir allocationId)
  else .error (invalidAllocationId allocationId)

def readPidFile (unitDir : Path) : PidFile → Except OperationError (Option ℕ)
  | .missing => .ok none
  | .text raw => .ok (positiveOf (trim raw))
  | .unreadable failure => .error (operationalFailure failure "pid_file_read_failed"
      ("unable to read the pid file under " ++ unitDir.text))

/-- What one turn of the loop in `findUnitsByAllocation` adds to the references. -/
def refOf (isAlive : ℕ → Bool) (allocationId : String) (allocationDir : Path) :
    String × PidFile → Except OperationError (Option String)
  | (entry, file) =>
    match generationOf entry with
    | none => .ok none
    | some generation =>
      match readPidFile (Path.resolve allocationDir entry) file with
      | .error error => .error error
      | .ok none => .ok none
      | .ok (some pid) =>
        if isAlive pid then .ok (some (externalRefOf allocationId generation pid)) else .ok none

def refsOf (isAlive : ℕ → Bool) (allocationId : String) (allocationDir : Path) :
    List (String × PidFile) → Except OperationError (List String)
  | [] => .ok []
  | entry :: entries => do
    let ref ← refOf isAlive allocationId allocationDir entry
    let refs ← refsOf isAlive allocationId allocationDir entries
    .ok (ref.toList ++ refs)

/-- The references of an allocation's units; the directory is none where there is no such. -/
def findUnitsByAllocation (allocationsDir : Path) (isAlive : ℕ → Bool) (allocationId : String)
    (directory : Option Directory) : Except OperationError (List String) := do
  let allocationDir ← allocationDirOf allocationsDir allocationId
  match directory with
  | none => .ok []
  | some directory =>
    match directory.unlistable with
    | some failure => .error (operationalFailure failure "allocation_dir_read_failed"
        ("unable to list units under " ++ allocationDir.text))
    | none => refsOf isAlive allocationId allocationDir directory.pidFiles.entries

/-! ### What the directory says -/

/-- The entries `readdir` lists, with their pid files. -/
def pidFilesOf (directory : Option Directory) : OrderedMap String PidFile :=
  (directory.map Directory.pidFiles).getD .empty

/-- The name is one of a unit's directory, in some spelling of the generation. -/
def NamesUnit (entryName : String) : Prop :=
  ∃ rest generation, entryName.toList = unitDirPrefix.toList ++ rest ∧
    positiveOf rest = some generation

/-- The live process a pid file names, if it names one. -/
def livePid (isAlive : ℕ → Bool) : PidFile → Option ℕ
  | .text raw => (positiveOf (trim raw)).filter isAlive
  | .missing | .unreadable _ => none

/-- The units of an allocation were started, one for each of some requests that passed their check,
and have their directories. -/
structure Started (allocationId : String) (directory : Option Directory)
    (requests : List EnsureSidecarRequest) : Prop where
  /-- no unit is started for another id -/
  matched : matchesAllocationIdPattern allocationId
  admitted : ∀ request ∈ requests, request.allocationId = allocationId ∧
    validateEnsureRequest request = none ∧ IsNumber request.generation.toNat
  distinct : (requests.map fun request => request.generation.toNat).Nodup
  made : ∀ request ∈ requests,
    unitDirName request.generation.toNat ∈ (pidFilesOf directory).keys

/-- The reference of a unit whose pid file names a live process. -/
def unitRef (isAlive : ℕ → Bool) (allocationId : String) (directory : Option Directory)
    (generation : ℕ) : Option String :=
  (((pidFilesOf directory).get (unitDirName generation)).bind (livePid isAlive)).map
    (externalRefOf allocationId generation)

/-- Every unit is recognised by its directory, and what is found are the live units, each once. -/
structure Discovered (allocationsDir : Path) (isAlive : ℕ → Bool) (allocationId : String)
    (directory : Option Directory) (requests : List EnsureSidecarRequest) : Prop where
  recovers : ∀ request ∈ requests,
    generationOf (unitDirName request.generation.toNat) = some request.generation.toNat
  finds : ∃ refs, findUnitsByAllocation allocationsDir isAlive allocationId directory = .ok refs ∧
    refs.Perm (requests.filterMap fun request =>
      unitRef isAlive allocationId directory request.generation.toNat)

/-- No unit has the generation `0`, what is read can be read, and no other entry passes for a live
unit. -/
structure Discoverable (isAlive : ℕ → Bool) (directory : Option Directory)
    (requests : List EnsureSidecarRequest) : Prop where
  positive : ∀ request ∈ requests, request.generation.toNat ≠ 0
  listable : ∀ found ∈ directory, found.unlistable = none
  readable : ∀ entry ∈ (pidFilesOf directory).entries, NamesUnit entry.1 →
    ∀ failure, entry.2 ≠ .unreadable failure
  alone : ∀ entry ∈ (pidFilesOf directory).entries, NamesUnit entry.1 →
    livePid isAlive entry.2 ≠ none →
      ∃ request ∈ requests, entry.1 = unitDirName request.generation.toNat

variable {allocationsDir allocationDir : Path} {isAlive : ℕ → Bool} {allocationId : String}
  {directory : Option Directory} {requests : List EnsureSidecarRequest} {generation : ℕ}

/-! ### Names -/

lemma positiveOf_numberText (h : IsNumber generation) :
    positiveOf (numberText generation) = if 0 < generation then some generation else none := by
  simp only [positiveOf, numberOf_numberText h, Int.toNat_natCast]
  simp

lemma generationOf_eq_some_iff {entryName : String} :
    generationOf entryName = some generation ↔
      ∃ rest, entryName.toList = unitDirPrefix.toList ++ rest ∧
        positiveOf rest = some generation := by
  unfold generationOf
  split_ifs with hp
  · obtain ⟨rest, hrest⟩ := List.isPrefixOf_iff_prefix.mp hp
    have hdrop : entryName.toList.drop unitDirPrefix.length = rest := by
      rw [← hrest]
      exact List.drop_left
    rw [hdrop]
    constructor
    · exact fun h => ⟨rest, hrest.symm, h⟩
    · rintro ⟨rest', hrest', h⟩
      rwa [List.append_cancel_left (hrest.trans hrest')]
  · refine ⟨fun h => by simp at h, ?_⟩
    rintro ⟨rest, hrest, -⟩
    exact absurd (List.isPrefixOf_iff_prefix.mpr ⟨rest, hrest.symm⟩) hp

lemma namesUnit_iff {entryName : String} : NamesUnit entryName ↔ generationOf entryName ≠ none := by
  rw [Option.ne_none_iff_exists']
  constructor
  · rintro ⟨rest, generation, h⟩
    exact ⟨generation, generationOf_eq_some_iff.2 ⟨rest, h⟩⟩
  · rintro ⟨generation, h⟩
    obtain ⟨rest, h⟩ := generationOf_eq_some_iff.1 h
    exact ⟨rest, generation, h⟩

lemma toList_unitDirName (generation : ℕ) :
    (unitDirName generation).toList = unitDirPrefix.toList ++ numberText generation := by
  rw [unitDirName, String.toList_append, String.toList_ofList]

/-- **The directory of a unit names its generation**, in whatever form that is written, unless it
is `0`. -/
theorem generationOf_unitDirName (h : IsNumber generation) :
    generationOf (unitDirName generation) = if 0 < generation then some generation else none := by
  rw [← positiveOf_numberText h]
  cases hpos : positiveOf (numberText generation) with
  | some found => exact generationOf_eq_some_iff.2 ⟨_, toList_unitDirName generation, hpos⟩
  | none =>
    by_contra hne
    obtain ⟨found, hfound⟩ := Option.ne_none_iff_exists'.mp hne
    obtain ⟨rest, hrest, hfound⟩ := generationOf_eq_some_iff.1 hfound
    rw [toList_unitDirName] at hrest
    rw [← List.append_cancel_left hrest, hpos] at hfound
    cases hfound

lemma unitDirName_injective {g g' : ℕ} (hg : IsNumber g) (hg' : IsNumber g')
    (h : unitDirName g = unitDirName g') : g = g' := by
  have htext := congrArg String.toList h
  rw [toList_unitDirName, toList_unitDirName] at htext
  have hread := congrArg numberOf (List.append_cancel_left htext)
  rw [numberOf_numberText hg, numberOf_numberText hg'] at hread
  exact_mod_cast Option.some.inj hread

/-- Below the limit of exact integers a directory is named with all digits of its generation. -/
lemma unitDirName_of_lt (h : generation < 2 ^ 53) :
    unitDirName generation = Provisioner.unitDirName generation := by
  rw [String.ext_iff, toList_unitDirName, Provisioner.toList_unitDirName, numberText_of_lt h]

/-! ### The loop over the entries -/

/-- The reference of an entry, if it passes for a live unit. -/
def entryRef (isAlive : ℕ → Bool) (allocationId : String) (entry : String × PidFile) :
    Option String :=
  (generationOf entry.1).bind fun generation =>
    (livePid isAlive entry.2).map (externalRefOf allocationId generation)

lemma entryRef_eq_none_iff {entry : String × PidFile} :
    entryRef isAlive allocationId entry = none ↔
      (NamesUnit entry.1 → livePid isAlive entry.2 = none) := by
  rw [namesUnit_iff, entryRef]
  cases generationOf entry.1 <;> simp

lemma refOf_eq_ok_iff {entry : String × PidFile} {ref : Option String} :
    refOf isAlive allocationId allocationDir entry = .ok ref ↔
      (NamesUnit entry.1 → ∀ failure, entry.2 ≠ .unreadable failure) ∧
        entryRef isAlive allocationId entry = ref := by
  obtain ⟨name, file⟩ := entry
  rw [namesUnit_iff]
  simp only [refOf, entryRef]
  cases generationOf name with
  | none => simp
  | some generation =>
    cases file with
    | missing => simp [readPidFile, livePid]
    | unreadable failure => simp [readPidFile]
    | text raw =>
      cases hpid : positiveOf (trim raw) with
      | none => simp [readPidFile, livePid, hpid]
      | some pid => cases halive : isAlive pid <;>
        simp [readPidFile, livePid, hpid, halive, Option.filter_some]

lemma refsOf_eq_ok_iff {entries : List (String × PidFile)} {refs : List String} :
    refsOf isAlive allocationId allocationDir entries = .ok refs ↔
      (∀ entry ∈ entries, NamesUnit entry.1 → ∀ failure, entry.2 ≠ .unreadable failure) ∧
        entries.filterMap (entryRef isAlive allocationId) = refs := by
  induction entries generalizing refs with
  | nil => simp [refsOf]
  | cons entry entries ih =>
    rw [List.forall_mem_cons, List.filterMap_cons]
    constructor
    · intro h
      rw [refsOf] at h
      cases href : refOf isAlive allocationId allocationDir entry with
      | error error =>
        rw [href] at h
        cases h
      | ok ref =>
        cases hrefs : refsOf isAlive allocationId allocationDir entries with
        | error error =>
          rw [href, hrefs] at h
          cases h
        | ok rest =>
          rw [href, hrefs] at h
          obtain ⟨hreadable, rfl⟩ := refOf_eq_ok_iff.1 href
          obtain ⟨hrest, rfl⟩ := ih.mp hrefs
          refine ⟨⟨hreadable, hrest⟩, ?_⟩
          cases h
          cases entryRef isAlive allocationId entry <;> rfl
    · rintro ⟨⟨hreadable, hrest⟩, rfl⟩
      rw [refsOf, refOf_eq_ok_iff.2 ⟨hreadable, rfl⟩, ih.mpr ⟨hrest, rfl⟩]
      cases entryRef isAlive allocationId entry <;> rfl

lemma findUnitsByAllocation_eq_ok_iff (h : matchesAllocationIdPattern allocationId)
    {refs : List String} :
    findUnitsByAllocation allocationsDir isAlive allocationId directory = .ok refs ↔
      (∀ found ∈ directory, found.unlistable = none) ∧
      (∀ entry ∈ (pidFilesOf directory).entries, NamesUnit entry.1 →
        ∀ failure, entry.2 ≠ .unreadable failure) ∧
      (pidFilesOf directory).entries.filterMap (entryRef isAlive allocationId) = refs := by
  have hdir : allocationDirOf allocationsDir allocationId =
      .ok (Path.resolve allocationsDir allocationId) := by rw [allocationDirOf, if_pos h]
  unfold findUnitsByAllocation
  rw [hdir]
  cases directory with
  | none => simp [pidFilesOf, OrderedMap.empty, bind, Except.bind]
  | some found =>
    have hentries : (pidFilesOf (some found)).entries = found.pidFiles.entries := rfl
    rw [hentries, ← @refsOf_eq_ok_iff (Path.resolve allocationsDir allocationId)]
    cases hlist : found.unlistable <;> simp [bind, Except.bind, hlist]

/-! ### The units among the entries -/

/-- The names of the directories of started units. -/
def unitNames (requests : List EnsureSidecarRequest) : List String :=
  requests.map fun request => unitDirName request.generation.toNat

lemma nodup_unitNames (h : Started allocationId directory requests) :
    (unitNames requests).Nodup := by
  refine List.Nodup.map_on ?_ (List.Nodup.of_map _ h.distinct)
  intro request hrequest request' hrequest' heq
  have hgeneration := unitDirName_injective (h.admitted _ hrequest).2.2
    (h.admitted _ hrequest').2.2 heq
  exact List.inj_on_of_nodup_map h.distinct hrequest hrequest' hgeneration

/-- Apart from entries that are no unit's directory, what passes for a live unit are the live
units. -/
lemma filterMap_entryRef_perm (h : Started allocationId directory requests)
    (hpositive : ∀ request ∈ requests, request.generation.toNat ≠ 0) :
    ((pidFilesOf directory).entries.filterMap (entryRef isAlive allocationId)).Perm
      ((requests.filterMap fun request =>
          unitRef isAlive allocationId directory request.generation.toNat) ++
        ((pidFilesOf directory).entries.filter fun entry => entry.1 ∉ unitNames requests).filterMap
          (entryRef isAlive allocationId)) := by
  let entries := (pidFilesOf directory).entries
  let isUnit := fun entry : String × PidFile => decide (entry.1 ∈ unitNames requests)
  -- the same references, as they are looked up by the names
  let refOfName := fun name : String => entryRef isAlive allocationId
    (name, ((pidFilesOf directory).get name).getD .missing)
  have hsplit :
      (entries.filter isUnit ++ entries.filter fun entry => !isUnit entry).Perm entries :=
    List.filter_append_perm isUnit entries
  have hnames : ((entries.filter isUnit).map Prod.fst).Perm (unitNames requests) := by
    rw [List.perm_ext_iff_of_nodup]
    · intro name
      simp only [List.mem_map, List.mem_filter, isUnit, decide_eq_true_eq]
      constructor
      · rintro ⟨entry, ⟨-, hmem⟩, rfl⟩
        exact hmem
      · intro hmem
        obtain ⟨request, hrequest, rfl⟩ := List.mem_map.mp hmem
        obtain ⟨entry, hentry, hname⟩ := List.mem_map.mp (h.made request hrequest)
        exact ⟨entry, ⟨hentry, hname ▸ hmem⟩, hname⟩
    · exact (pidFilesOf directory).nodup.sublist (List.filter_sublist.map Prod.fst)
    · exact nodup_unitNames h
  have hfound : (entries.filter isUnit).filterMap (entryRef isAlive allocationId) =
      ((entries.filter isUnit).map Prod.fst).filterMap refOfName := by
    rw [List.filterMap_map]
    refine List.filterMap_congr fun entry hentry => ?_
    have hlookup := OrderedMap.get_eq_some.2 (List.mem_of_mem_filter hentry)
    simp [refOfName, hlookup]
  have hunits : (unitNames requests).filterMap refOfName = requests.filterMap fun request =>
      unitRef isAlive allocationId directory request.generation.toNat := by
    rw [unitNames, List.filterMap_map]
    refine List.filterMap_congr fun request hrequest => ?_
    obtain ⟨entry, hentry, hname⟩ := List.mem_map.mp (h.made request hrequest)
    have hlookup := OrderedMap.get_eq_some.2 hentry
    have hgeneration := generationOf_unitDirName (h.admitted request hrequest).2.2
    rw [if_pos (Nat.pos_of_ne_zero (hpositive request hrequest))] at hgeneration
    rw [hname] at hlookup
    simp [refOfName, entryRef, unitRef, hlookup, hgeneration]
  have hrest : (entries.filter fun entry => !isUnit entry) =
      entries.filter fun entry => entry.1 ∉ unitNames requests :=
    List.filter_congr fun entry _ => (decide_not (p := entry.1 ∈ unitNames requests)).symm
  refine (hsplit.filterMap _).symm.trans ?_
  rw [List.filterMap_append, hfound, hrest, ← hunits]
  exact (hnames.filterMap refOfName).append_right _

/-- **The units of an allocation are found**, each live one once and nothing else, exactly if none
of them has the generation `0`, no read fails, and no other entry passes for a live unit. -/
theorem discovered_iff (h : Started allocationId directory requests) :
    Discovered allocationsDir isAlive allocationId directory requests ↔
      Discoverable isAlive directory requests := by
  constructor
  · rintro ⟨hrecovers, refs, hfind, hperm⟩
    have hpositive : ∀ request ∈ requests, request.generation.toNat ≠ 0 := by
      intro request hrequest hzero
      have hgeneration := hrecovers request hrequest
      rw [generationOf_unitDirName (h.admitted request hrequest).2.2, hzero] at hgeneration
      simp at hgeneration
    obtain ⟨hlistable, hreadable, rfl⟩ := (findUnitsByAllocation_eq_ok_iff h.matched).mp hfind
    refine ⟨hpositive, hlistable, hreadable, fun entry hentry hnames hlive => ?_⟩
    by_contra hother
    -- nothing is left for the entries that are no units
    have hlength := (hperm.symm.trans (filterMap_entryRef_perm h hpositive)).length_eq
    rw [List.length_append, Nat.left_eq_add, List.length_eq_zero_iff,
      List.filterMap_eq_nil_iff] at hlength
    have hnone := hlength entry (by
      rw [List.mem_filter, decide_eq_true_eq, unitNames, List.mem_map]
      refine ⟨hentry, ?_⟩
      rintro ⟨request, hrequest, hname⟩
      exact hother ⟨request, hrequest, hname.symm⟩)
    exact hlive (entryRef_eq_none_iff.1 hnone hnames)
  · rintro ⟨hpositive, hlistable, hreadable, halone⟩
    constructor
    · intro request hrequest
      rw [generationOf_unitDirName (h.admitted request hrequest).2.2,
        if_pos (Nat.pos_of_ne_zero (hpositive request hrequest))]
    · refine ⟨_, (findUnitsByAllocation_eq_ok_iff h.matched).mpr ⟨hlistable, hreadable, rfl⟩, ?_⟩
      have hperm := @filterMap_entryRef_perm isAlive _ _ _ h hpositive
      have hnil : ((pidFilesOf directory).entries.filter fun entry =>
          entry.1 ∉ unitNames requests).filterMap (entryRef isAlive allocationId) = [] := by
        rw [List.filterMap_eq_nil_iff]
        intro entry hentry
        rw [List.mem_filter, decide_eq_true_eq] at hentry
        rw [entryRef_eq_none_iff]
        intro hnames
        by_contra hlive
        obtain ⟨request, hrequest, hname⟩ := halone entry hentry.1 hnames hlive
        exact hentry.2 (hname ▸ List.mem_map_of_mem hrequest)
      rwa [hnil, List.append_nil] at hperm

/-! ### Samples -/

def sampleRequest (generation : ℤ) : EnsureSidecarRequest :=
  ⟨"a", "s", .integer generation, "t", "ws://hub"⟩

/-- The directory of one unit that was started as process `7`. -/
def sampleDirectory (generation : ℕ) : Option Directory :=
  some ⟨OrderedMap.empty.set (unitDirName generation) (.text (numberText 7 ++ ['\n'])), none⟩

lemma started_sample (h : generation < 2 ^ 53) :
    Started "a" (sampleDirectory generation) [sampleRequest generation] where
  matched := by decide
  admitted := by
    have hcheck : validateEnsureRequest (sampleRequest generation) = none := by
      simp [validateEnsureRequest, sampleRequest, JsNumber.isInteger, JsNumber.isNegative]
    intro request hrequest
    obtain rfl := List.mem_singleton.mp hrequest
    exact ⟨rfl, hcheck, nearest_of_lt h⟩
  distinct := List.nodup_singleton _
  made := by
    intro request hrequest
    obtain rfl := List.mem_singleton.mp hrequest
    exact List.mem_cons_self

theorem discovered_iff_gen_three :
    Discovered ["data"] (fun pid => pid = 7) "a" (sampleDirectory 3) [sampleRequest 3] ↔
      Discoverable (fun pid => pid = 7) (sampleDirectory 3) [sampleRequest 3] :=
  discovered_iff (started_sample (by decide))

/-- **A unit of generation `0` is not found**, though its request passes the check. -/
theorem gen_zero_not_found : Started "a" (sampleDirectory 0) [sampleRequest 0] ∧
    ¬ Discovered ["data"] (fun pid => pid = 7) "a" (sampleDirectory 0) [sampleRequest 0] := by
  refine ⟨started_sample (by decide), fun h => ?_⟩
  have hrecovers := h.recovers (sampleRequest 0) List.mem_cons_self
  have hzero : (sampleRequest 0).generation.toNat = 0 := rfl
  rw [hzero, generationOf_unitDirName (nearest_of_lt (by decide))] at hrecovers
  cases hrecovers

end Workbench.Provisioner.Discovery
