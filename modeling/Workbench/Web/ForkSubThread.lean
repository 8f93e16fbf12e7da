import Workbench.Lib.Json
import Workbench.Lib.Percent

/-!
Forks of a thread, and the links by which a fork is sent once.

The links are held in the storage of the browser as one JSON text. Each row is checked for itself
when they are loaded, and a row that does not pass is left out; so a link that does not pass is
lost as soon as it is recorded.
-/

namespace Workbench.Web.ForkSubThread

open Workbench.Lib

/-! ### The links -/

structure ThreadLink where
  workbenchLocalId : String
  messageId : String
  inReplyTo : Option String
  references : Option (List String)
  subject : Option String
  toAddresses : Option (List String)
  body : Option String
  deriving DecidableEq, Repr

/-- No link holds a number. -/
def linkNumerals : Numerals Unit where
  write _ := ['0']
  read _ := ()

abbrev LinkJson := Json Unit

def optionalMember (key : String) (value : Option LinkJson) : List (String × LinkJson) :=
  value.toList.map fun value => (key, value)

def textsJson (texts : List String) : LinkJson := .array (texts.map .string)

def linkJson (link : ThreadLink) : LinkJson :=
  .object ([("workbenchLocalId", .string link.workbenchLocalId),
    ("messageId", .string link.messageId)] ++
    (optionalMember "inReplyTo" (link.inReplyTo.map .string) ++
    (optionalMember "references" (link.references.map textsJson) ++
    (optionalMember "subject" (link.subject.map .string) ++
    (optionalMember "to" (link.toAddresses.map textsJson) ++
    optionalMember "body" (link.body.map .string))))))

def text : LinkJson → Option String
  | .string value => some value
  | _ => none

/-- `string > 0` -/
def nonEmptyText : LinkJson → Option String
  | .string value => if value = "" then none else some value
  | _ => none

def arrayOf (item : LinkJson → Option String) : LinkJson → Option (List String)
  | .array items => items.mapM item
  | _ => none

/-- An optional member passes when it is missing. -/
def optional {α : Type} (check : LinkJson → Option α) : Option LinkJson → Option (Option α)
  | none => some none
  | some value => (check value).map some

/-- The validator `ThreadLinkSchema`. -/
def threadLinkOf (row : LinkJson) : Option ThreadLink := do
  let workbenchLocalId ← (row.member "workbenchLocalId").bind nonEmptyText
  let messageId ← (row.member "messageId").bind nonEmptyText
  let inReplyTo ← optional nonEmptyText (row.member "inReplyTo")
  let references ← optional (arrayOf nonEmptyText) (row.member "references")
  let subject ← optional nonEmptyText (row.member "subject")
  let toAddresses ← optional (arrayOf text) (row.member "to")
  let body ← optional text (row.member "body")
  return ⟨workbenchLocalId, messageId, inReplyTo, references, subject, toAddresses, body⟩

/-! ### The store -/

abbrev StringStorage := String → Option String

def linksKey (hubScope accountId : String) : String :=
  "workbench.thread-links:" ++ Percent.encodeURIComponent hubScope ++ ":" ++
    Percent.encodeURIComponent accountId

/-- `load`. -/
def load (storage : StringStorage) (key : String) : List ThreadLink :=
  match storage key with
  | none => []
  | some raw =>
    match Json.parse linkNumerals raw.toList with
    | some (.array rows) => rows.filterMap threadLinkOf
    | _ => []

/-- The text of some links. -/
def linksText (links : List ThreadLink) : String :=
  String.ofList (Json.stringify linkNumerals (.array (links.map linkJson)))

/-- `record`. -/
def record (storage : StringStorage) (key : String) (link : ThreadLink) : StringStorage :=
  let links := (load storage key).filter fun row => row.messageId ≠ link.messageId
  Function.update storage key (some (linksText (links ++ [link])))

/-! ### Forks -/

structure ForkSubThreadParent where
  workbenchLocalId : String
  tenantId : String
  messageId : String
  references : Option (List String)
  deriving DecidableEq, Repr

structure ForkSubThreadInput where
  toAddresses : List String
  subject : String
  body : String
  deriving DecidableEq, Repr

structure ForkReference where
  inReplyTo : String
  references : List String

def buildForkReference (parent : ForkSubThreadParent) : ForkReference where
  inReplyTo := parent.messageId
  references :=
    let ancestry := parent.references.getD []
    if ancestry.getLast? ≠ some parent.messageId then ancestry ++ [parent.messageId] else ancestry

structure SendRunMailInput where
  tenantId : String
  toAddresses : List String
  subject : String
  body : String
  inReplyTo : String
  references : List String
  deriving DecidableEq, Repr

/-- How a send ends: the hub answers, and then the link is stored or the storage is full. -/
inductive Ending
  | refused
  | answered (messageId : String) (stored : Bool)
  deriving DecidableEq, Repr

/-- The storage, and what the hub has been sent. -/
structure ForkState where
  storage : StringStorage
  sent : List SendRunMailInput

def replays (parent : ForkSubThreadParent) (input : ForkSubThreadInput) (link : ThreadLink) :
    Bool :=
  link.workbenchLocalId = parent.workbenchLocalId && link.inReplyTo = some parent.messageId &&
    link.subject = some input.subject && link.toAddresses.all (· = input.toAddresses) &&
    link.body.all (· = input.body)

def forkMail (parent : ForkSubThreadParent) (input : ForkSubThreadInput) : SendRunMailInput where
  tenantId := parent.tenantId
  toAddresses := input.toAddresses
  subject := input.subject
  body := input.body
  inReplyTo := (buildForkReference parent).inReplyTo
  references := (buildForkReference parent).references

def forkLink (parent : ForkSubThreadParent) (input : ForkSubThreadInput) (messageId : String) :
    ThreadLink where
  workbenchLocalId := parent.workbenchLocalId
  messageId := messageId
  inReplyTo := some (buildForkReference parent).inReplyTo
  references := some (buildForkReference parent).references
  subject := some input.subject
  toAddresses := some input.toAddresses
  body := some input.body

/-- A fork, with a hub that says how each send ends: the message id that is returned, if one is,
and what is left. -/
def forkSubThread (hub : ℕ → Ending) (key : String) (s : ForkState)
    (parent : ForkSubThreadParent) (input : ForkSubThreadInput) : Option String × ForkState :=
  match (load s.storage key).find? (replays parent input) with
  | some replay => (some replay.messageId, s)
  | none =>
    let sent := s.sent ++ [forkMail parent input]
    match hub s.sent.length with
    | .refused => (none, { s with sent := sent })
    | .answered _ false => (none, { s with sent := sent })
    | .answered messageId true =>
      (some messageId, ⟨record s.storage key (forkLink parent input messageId), sent⟩)

/-- A call of `forkSubThread`. -/
structure Fork where
  parent : ForkSubThreadParent
  input : ForkSubThreadInput
  deriving DecidableEq, Repr

/-- The state after some calls. -/
def afterForks (hub : ℕ → Ending) (key : String) (s : ForkState) (forks : List Fork) : ForkState :=
  forks.foldl (fun s fork => (forkSubThread hub key s fork.parent fork.input).2) s

/-- The calls that have been recorded: they have sent, and have returned. -/
def recordedForks (hub : ℕ → Ending) (key : String) : ForkState → List Fork → List Fork
  | _, [] => []
  | s, fork :: rest =>
    let (returned, next) := forkSubThread hub key s fork.parent fork.input
    let recorded := recordedForks hub key next rest
    if returned.isSome && s.sent.length < next.sent.length then fork :: recorded else recorded

/-! ### What a link must be to survive -/

/-- A link that passes the validator. -/
structure ThreadLink.Valid (link : ThreadLink) : Prop where
  workbenchLocalId : link.workbenchLocalId ≠ ""
  messageId : link.messageId ≠ ""
  inReplyTo : ∀ inReplyTo ∈ link.inReplyTo, inReplyTo ≠ ""
  references : ∀ references ∈ link.references, ∀ reference ∈ references, reference ≠ ""
  subject : ∀ subject ∈ link.subject, subject ≠ ""

variable {link : ThreadLink} {texts : List String} {storage : StringStorage} {key : String}
  {hub : ℕ → Ending} {s : ForkState} {parent : ForkSubThreadParent} {input : ForkSubThreadInput}

lemma member_append (key : String) (ms ms' : List (String × LinkJson)) :
    (Json.object (ms ++ ms')).member key =
      ((Json.object ms').member key).or ((Json.object ms).member key) := by
  simp only [Json.member, List.reverse_append, List.find?_append]
  cases ms'.reverse.find? (·.1 = key) <;> rfl

lemma member_optionalMember (key name : String) (value : Option LinkJson) :
    (Json.object (optionalMember name value)).member key = if name = key then value else none := by
  cases value with
  | none => simp [optionalMember, Json.member]
  | some value => by_cases h : name = key <;> simp [optionalMember, Json.member, h]

lemma member_pair (key name name' : String) (value value' : LinkJson) :
    (Json.object [(name, value), (name', value')]).member key =
      if name' = key then some value' else if name = key then some value else none := by
  by_cases h : name' = key <;> by_cases h' : name = key <;> simp [Json.member, h, h']

lemma mapM_text (texts : List String) :
    (texts.map (Json.string (ν := Unit))).mapM text = some texts := by
  induction texts with
  | nil => rfl
  | cons value texts ih => simp [text, ih]

lemma mapM_nonEmptyText {read : List String} :
    (texts.map (Json.string (ν := Unit))).mapM nonEmptyText = some read ↔
      read = texts ∧ ∀ value ∈ texts, value ≠ "" := by
  induction texts generalizing read with
  | nil => simp [eq_comm]
  | cons value texts ih =>
    simp only [List.map_cons, List.mapM_cons, Option.bind_eq_bind, Option.bind_eq_some_iff,
      Option.pure_def, Option.some.injEq, ih, List.forall_mem_cons, nonEmptyText]
    constructor
    · rintro ⟨first, hfirst, rest, ⟨rfl, hall⟩, rfl⟩
      simp only [Option.ite_none_left_eq_some, Option.some.injEq] at hfirst
      obtain ⟨hne, rfl⟩ := hfirst
      exact ⟨rfl, hne, hall⟩
    · rintro ⟨rfl, hne, hall⟩
      exact ⟨value, by simp [hne], texts, ⟨rfl, hall⟩, rfl⟩

lemma optional_nonEmptyText {value read : Option String} :
    optional nonEmptyText (value.map .string) = some read ↔
      read = value ∧ ∀ text ∈ value, text ≠ "" := by
  cases value with
  | none => simp [optional, eq_comm]
  | some value => by_cases h : value = "" <;> simp [optional, nonEmptyText, h, eq_comm]

lemma optional_references {value read : Option (List String)} :
    optional (arrayOf nonEmptyText) (value.map textsJson) = some read ↔
      read = value ∧ ∀ texts ∈ value, ∀ text ∈ texts, text ≠ "" := by
  cases value with
  | none => simp [optional, eq_comm]
  | some texts =>
    simp only [optional, Option.map_some, arrayOf, textsJson, Option.map_eq_some_iff,
      mapM_nonEmptyText, Option.mem_some_iff]
    constructor
    · rintro ⟨read, ⟨rfl, hall⟩, rfl⟩
      exact ⟨rfl, fun _ h => h ▸ hall⟩
    · rintro ⟨rfl, hall⟩
      exact ⟨texts, ⟨rfl, hall texts rfl⟩, rfl⟩

/-- **A row that was written passes** if and only if the link is valid, and is the same link. -/
lemma threadLinkOf_linkJson {read : ThreadLink} :
    threadLinkOf (linkJson link) = some read ↔ read = link ∧ link.Valid := by
  have htext : ∀ value read : Option String,
      optional text (value.map .string) = some read ↔ read = value := by
    rintro (_ | value) read <;> simp [optional, text, eq_comm]
  have hto : ∀ value read : Option (List String),
      optional (arrayOf text) (value.map textsJson) = some read ↔ read = value := by
    rintro (_ | texts) read
    · simp [optional, eq_comm]
    · simp only [optional, Option.map_some, arrayOf, textsJson, mapM_text]
      simp [eq_comm]
  have hrequired : ∀ value read,
      nonEmptyText (.string value) = some read ↔ read = value ∧ value ≠ "" := by
    intro value read
    by_cases h : value = "" <;> simp [nonEmptyText, h, eq_comm]
  simp only [threadLinkOf, linkJson, member_append, member_optionalMember, member_pair,
    String.reduceEq, if_true, if_false, Option.none_or, Option.or_none,
    Option.bind_eq_bind, Option.bind_eq_some_iff, Option.pure_def, Option.some.injEq,
    exists_eq_left', hrequired, htext, hto, optional_nonEmptyText, optional_references]
  constructor
  · rintro ⟨_, ⟨rfl, hw⟩, _, ⟨rfl, hm⟩, _, ⟨rfl, hi⟩, _, ⟨rfl, hr⟩, _, ⟨rfl, hs⟩, _, rfl, _, rfl,
      rfl⟩
    exact ⟨rfl, hw, hm, hi, hr, hs⟩
  · rintro ⟨rfl, hw, hm, hi, hr, hs⟩
    exact ⟨_, ⟨rfl, hw⟩, _, ⟨rfl, hm⟩, _, ⟨rfl, hi⟩, _, ⟨rfl, hr⟩, _, ⟨rfl, hs⟩, _, rfl, _, rfl,
      rfl⟩

lemma reads_textsJson (texts : List String) : (textsJson texts).Reads linkNumerals := by
  induction texts with
  | nil => trivial
  | cons value texts ih => exact ⟨trivial, ih⟩

lemma reads_linkJson (link : ThreadLink) : (linkJson link).Reads linkNumerals := by
  obtain ⟨workbenchLocalId, messageId, inReplyTo, references, subject, toAddresses, body⟩ := link
  cases inReplyTo <;> cases references <;> cases subject <;> cases toAddresses <;> cases body <;>
    simp [linkJson, optionalMember, Json.Reads, Json.ReadsMembers, reads_textsJson]

lemma reads_linksJson (links : List ThreadLink) :
    Json.ReadsElements linkNumerals (links.map linkJson) := by
  induction links with
  | nil => trivial
  | cons link links ih => exact ⟨reads_linkJson link, ih⟩

/-- **What is loaded of some links** are those that pass. -/
theorem load_linksText {links : List ThreadLink} (h : storage key = some (linksText links)) :
    load storage key = links.filterMap fun link => threadLinkOf (linkJson link) := by
  have hparse : Json.parse linkNumerals (linksText links).toList =
      some (.array (links.map linkJson)) := by
    have hcompact : Json.parse linkNumerals
        (Json.stringify linkNumerals (.array (links.map linkJson)) ++ []) =
          some (.array (links.map linkJson)) :=
      Json.parse_stringify (reads_linksJson links) (by simp)
    rw [List.append_nil] at hcompact
    rw [linksText, String.toList_ofList]
    exact hcompact
  rw [load, h]
  simp only [hparse, List.filterMap_map]
  rfl

/-! ### Recording a link -/

/-- All links that are loaded have been answered by the hub before, and passed. -/
structure Loaded (hub : ℕ → Ending) (key : String) (s : ForkState) : Prop where
  valid : ∀ row ∈ load s.storage key, row.Valid
  answered : ∀ row ∈ load s.storage key, ∃ i < s.sent.length, ∃ stored,
    hub i = .answered row.messageId stored

/-- The message ids of a hub are its own. -/
structure NativeIds (hub : ℕ → Ending) : Prop where
  unique : ∀ i j messageId stored stored', hub i = .answered messageId stored →
    hub j = .answered messageId stored' → i = j
  nonEmpty : ∀ i messageId stored, hub i = .answered messageId stored → messageId ≠ ""

/-- A link is recorded behind those that are there. -/
lemma load_record (hvalid : ∀ row ∈ load storage key, row.Valid)
    (hnew : ∀ row ∈ load storage key, row.messageId ≠ link.messageId) :
    load (record storage key link) key =
      load storage key ++ (threadLinkOf (linkJson link)).toList := by
  have hkeep : (load storage key).filter (fun row => row.messageId ≠ link.messageId) =
      load storage key := List.filter_eq_self.mpr fun row hrow => by simpa using hnew row hrow
  have hsame : (load storage key).filterMap (fun link => threadLinkOf (linkJson link)) =
      load storage key := by
    rw [List.filterMap_congr fun row hrow =>
      threadLinkOf_linkJson.2 ⟨rfl, hvalid row hrow⟩, List.filterMap_some]
  have htext : record storage key link key = some (linksText (load storage key ++ [link])) := by
    rw [record, hkeep, Function.update_self]
  rw [load_linksText htext, List.filterMap_append, hsame]
  cases h : threadLinkOf (linkJson link) <;> simp [h]

/-- What a call can do. -/
inductive ForkHappens (hub : ℕ → Ending) (key : String) (s : ForkState)
    (parent : ForkSubThreadParent) (input : ForkSubThreadInput) : Option String × ForkState → Prop
  | replayed (row : ThreadLink)
    (found : (load s.storage key).find? (replays parent input) = some row) :
    ForkHappens hub key s parent input (some row.messageId, s)
  | failed (new : (load s.storage key).find? (replays parent input) = none) :
    ForkHappens hub key s parent input
      (none, { s with sent := s.sent ++ [forkMail parent input] })
  | recorded (messageId : String)
    (new : (load s.storage key).find? (replays parent input) = none)
    (answer : hub s.sent.length = .answered messageId true) :
    ForkHappens hub key s parent input (some messageId,
      ⟨record s.storage key (forkLink parent input messageId),
        s.sent ++ [forkMail parent input]⟩)

lemma forkSubThread_happens (hub : ℕ → Ending) (key : String) (s : ForkState)
    (parent : ForkSubThreadParent) (input : ForkSubThreadInput) :
    ForkHappens hub key s parent input (forkSubThread hub key s parent input) := by
  unfold forkSubThread
  cases hfind : (load s.storage key).find? (replays parent input) with
  | some row => exact .replayed row hfind
  | none =>
    dsimp only
    split
    · exact .failed hfind
    · exact .failed hfind
    · next messageId hanswer => exact .recorded messageId hfind hanswer

/-- A new id is that of no link. -/
lemma Loaded.new (hs : Loaded hub key s) (hids : NativeIds hub) {messageId : String}
    (hanswer : hub s.sent.length = .answered messageId true) :
    ∀ row ∈ load s.storage key, row.messageId ≠ messageId := by
  rintro row hrow rfl
  obtain ⟨i, hi, stored, hrow⟩ := hs.answered row hrow
  exact absurd (hids.unique _ _ _ _ _ hrow hanswer) hi.ne

/-- The link that is recorded is loaded if it is valid. -/
lemma load_forkLink (hs : Loaded hub key s) (hids : NativeIds hub) {messageId : String}
    (hanswer : hub s.sent.length = .answered messageId true) :
    load (record s.storage key (forkLink parent input messageId)) key = load s.storage key ++
      (threadLinkOf (linkJson (forkLink parent input messageId))).toList :=
  load_record hs.valid (hs.new hids hanswer)

/-- **One call** keeps the links that are there. -/
lemma Loaded.fork (hs : Loaded hub key s) (hids : NativeIds hub) (parent : ForkSubThreadParent)
    (input : ForkSubThreadInput) :
    Loaded hub key (forkSubThread hub key s parent input).2 ∧
      load s.storage key <+: load (forkSubThread hub key s parent input).2.storage key := by
  have hlater : ∀ {row}, row ∈ load s.storage key →
      ∃ i < (s.sent ++ [forkMail parent input]).length,
        ∃ stored, hub i = .answered row.messageId stored := by
    intro row hrow
    obtain ⟨i, hi, hrow⟩ := hs.answered row hrow
    exact ⟨i, by rw [List.length_append]; exact Nat.lt_add_right _ hi, hrow⟩
  have hhappens := forkSubThread_happens hub key s parent input
  generalize forkSubThread hub key s parent input = result at hhappens
  cases hhappens with
  | replayed row found => exact ⟨hs, List.prefix_refl _⟩
  | failed new => exact ⟨⟨hs.valid, fun row => hlater⟩, List.prefix_refl _⟩
  | recorded messageId new answer =>
    rw [load_forkLink hs hids answer]
    refine ⟨⟨fun row hrow => ?_, fun row hrow => ?_⟩, List.prefix_append _ _⟩
    · rw [load_forkLink hs hids answer] at hrow
      rcases List.mem_append.mp hrow with hrow | hrow
      · exact hs.valid row hrow
      · obtain ⟨rfl, hvalid⟩ := threadLinkOf_linkJson.1 (Option.mem_toList.mp hrow)
        exact hvalid
    · rw [load_forkLink hs hids answer] at hrow
      rcases List.mem_append.mp hrow with hrow | hrow
      · exact hlater hrow
      · obtain ⟨rfl, -⟩ := threadLinkOf_linkJson.1 (Option.mem_toList.mp hrow)
        exact ⟨s.sent.length, by simp, true, answer⟩

/-- **Any calls** keep the links that are there. -/
lemma Loaded.after (hs : Loaded hub key s) (hids : NativeIds hub) (forks : List Fork) :
    Loaded hub key (afterForks hub key s forks) ∧
      load s.storage key <+: load (afterForks hub key s forks).storage key := by
  induction forks generalizing s with
  | nil => exact ⟨hs, List.prefix_refl _⟩
  | cons fork forks ih =>
    obtain ⟨hnext, hfirst⟩ := hs.fork hids fork.parent fork.input
    obtain ⟨hlast, hrest⟩ := ih hnext
    exact ⟨hlast, hfirst.trans hrest⟩

lemma loaded_of_none (h : storage key = none) (sent : List SendRunMailInput) :
    Loaded hub key ⟨storage, sent⟩ := by
  have hload : load storage key = [] := by rw [load, h]
  constructor <;> simp [hload]

/-! ### What has been recorded -/

/-- The fork of which a link has been recorded. -/
def Fork.Recorded (fork : Fork) (row : ThreadLink) : Prop :=
  row = forkLink fork.parent fork.input row.messageId

lemma recordedForks_append (s : ForkState) (forks : List Fork) (fork : Fork) :
    recordedForks hub key s (forks ++ [fork]) = recordedForks hub key s forks ++
      recordedForks hub key (afterForks hub key s forks) [fork] := by
  induction forks generalizing s with
  | nil => rfl
  | cons first forks ih =>
    simp only [List.cons_append, recordedForks, ih]
    split <;> rfl

/-- All links are those of forks that have been recorded. -/
lemma recorded_of_loaded (hs : Loaded hub key s) (hids : NativeIds hub)
    (hempty : load s.storage key = []) (forks : List Fork) :
    ∀ row ∈ load (afterForks hub key s forks).storage key,
      ∃ fork ∈ recordedForks hub key s forks, fork.Recorded row := by
  induction forks using List.reverseRecOn with
  | nil => simp [afterForks, hempty]
  | append_singleton forks fork ih =>
    intro row hrow
    have hlast : afterForks hub key s (forks ++ [fork]) =
        (forkSubThread hub key (afterForks hub key s forks) fork.parent fork.input).2 := by
      rw [afterForks, List.foldl_append]
      rfl
    rw [hlast] at hrow
    rw [recordedForks_append]
    have hold : row ∈ load (afterForks hub key s forks).storage key →
        ∃ f ∈ recordedForks hub key s forks ++
          recordedForks hub key (afterForks hub key s forks) [fork], f.Recorded row := by
      intro hrow
      obtain ⟨f, hf, hrecorded⟩ := ih row hrow
      exact ⟨f, List.mem_append_left _ hf, hrecorded⟩
    have hafter := (hs.after hids forks).1
    generalize afterForks hub key s forks = t at *
    have hhappens := forkSubThread_happens hub key t fork.parent fork.input
    generalize hresult : forkSubThread hub key t fork.parent fork.input = result at hhappens hrow
    cases hhappens with
    | replayed found => exact hold hrow
    | failed new => exact hold hrow
    | recorded messageId new answer =>
      rw [load_forkLink hafter hids answer] at hrow
      rcases List.mem_append.mp hrow with hrow | hrow
      · exact hold hrow
      · obtain ⟨rfl, -⟩ := threadLinkOf_linkJson.1 (Option.mem_toList.mp hrow)
        refine ⟨fork, List.mem_append_right _ ?_, rfl⟩
        simp [recordedForks, hresult]

/-! ### Sending once -/

/-- A fork of another message, or with another subject, other recipients or another body. A message
is known by its workbench and its message id. -/
def Fork.Differs (fork : Fork) (parent : ForkSubThreadParent) (input : ForkSubThreadInput) : Prop :=
  fork.parent.workbenchLocalId ≠ parent.workbenchLocalId ∨
    fork.parent.messageId ≠ parent.messageId ∨ fork.input.subject ≠ input.subject ∨
    fork.input.toAddresses ≠ input.toAddresses ∨ fork.input.body ≠ input.body

/-- Once a fork has returned an id it is replayed, whatever has been forked since; and a fork that
differs from all that have been recorded is sent. -/
structure SentOnce (key : String) (parent : ForkSubThreadParent) (input : ForkSubThreadInput) :
    Prop where
  replayed : ∀ hub, NativeIds hub → ∀ storage : StringStorage, storage key = none →
    ∀ (earlier later : List Fork) (messageId : String),
      let s := afterForks hub key ⟨storage, []⟩ earlier
      (forkSubThread hub key s parent input).1 = some messageId →
        let t := afterForks hub key (forkSubThread hub key s parent input).2 later
        forkSubThread hub key t parent input = (some messageId, t)
  sent : ∀ hub, NativeIds hub → ∀ storage : StringStorage, storage key = none →
    ∀ earlier : List Fork,
      let s := afterForks hub key ⟨storage, []⟩ earlier
      (∀ fork ∈ recordedForks hub key ⟨storage, []⟩ earlier, fork.Differs parent input) →
        (forkSubThread hub key s parent input).2.sent = s.sent ++ [forkMail parent input]

/-- A fork whose link passes the validator. -/
structure Recordable (parent : ForkSubThreadParent) (input : ForkSubThreadInput) : Prop where
  workbenchLocalId : parent.workbenchLocalId ≠ ""
  messageId : parent.messageId ≠ ""
  references : ∀ reference ∈ parent.references.getD [], reference ≠ ""
  subject : input.subject ≠ ""

lemma mem_references {reference : String} : reference ∈ (buildForkReference parent).references ↔
    reference ∈ parent.references.getD [] ∨ reference = parent.messageId := by
  simp only [buildForkReference]
  split_ifs with hlast
  · rw [List.mem_append, List.mem_singleton]
  · have hin := List.mem_of_getLast? (not_not.mp hlast)
    constructor
    · exact .inl
    · rintro (hmem | rfl)
      · exact hmem
      · exact hin

lemma valid_forkLink_iff {messageId : String} (hne : messageId ≠ "") :
    (forkLink parent input messageId).Valid ↔ Recordable parent input := by
  constructor
  · rintro ⟨hw, -, hi, hr, hs⟩
    exact ⟨hw, hi _ rfl, fun reference hmem => hr _ rfl reference (mem_references.2 (.inl hmem)),
      hs _ rfl⟩
  · rintro ⟨hw, hm, hr, hs⟩
    refine ⟨hw, hne, fun _ h => Option.some.inj h ▸ hm, ?_, fun _ h => Option.some.inj h ▸ hs⟩
    intro references href reference hmem
    obtain rfl := Option.some.inj href
    rcases mem_references.1 hmem with hmem | rfl
    · exact hr reference hmem
    · exact hm

/-- A link is that of its own fork. -/
lemma replays_forkLink (messageId : String) :
    replays parent input (forkLink parent input messageId) := by
  simp [replays, forkLink, buildForkReference]

/-- A link is that of no fork that differs. -/
lemma Fork.Differs.not_replays {fork : Fork} {row : ThreadLink} (h : fork.Differs parent input)
    (hrecorded : fork.Recorded row) : replays parent input row = false := by
  by_contra hreplays
  rw [Bool.not_eq_false, hrecorded] at hreplays
  simp only [replays, forkLink, buildForkReference, Bool.and_eq_true, decide_eq_true_eq,
    Option.some.injEq, Option.all_some] at hreplays
  obtain ⟨⟨⟨⟨hw, hm⟩, hs⟩, ht⟩, hb⟩ := hreplays
  rcases h with h | h | h | h | h
  · exact h (of_decide_eq_true hw)
  · exact h hm
  · exact h hs
  · exact h ht
  · exact h hb

/-- A link that is found first is found first for ever. -/
lemma find?_of_kept {links links' : List ThreadLink} {row : ThreadLink} (h : links <+: links')
    (hfind : links.find? (replays parent input) = some row) :
    links'.find? (replays parent input) = some row := by
  obtain ⟨rest, rfl⟩ := h
  rw [List.find?_append, hfind, Option.some_or]

lemma forkSubThread_of_find {row : ThreadLink}
    (h : (load s.storage key).find? (replays parent input) = some row) :
    forkSubThread hub key s parent input = (some row.messageId, s) := by
  rw [forkSubThread, h]

/-- After a call that has returned an id the link with that id is found, if the fork can be
recorded. -/
lemma find?_of_returned (hs : Loaded hub key s) (hids : NativeIds hub)
    (hrecordable : Recordable parent input) {messageId : String}
    (h : (forkSubThread hub key s parent input).1 = some messageId) : ∃ row,
      row.messageId = messageId ∧
        (load (forkSubThread hub key s parent input).2.storage key).find?
          (replays parent input) = some row := by
  have hhappens := forkSubThread_happens hub key s parent input
  generalize forkSubThread hub key s parent input = result at hhappens h
  cases hhappens with
  | replayed row found => exact ⟨row, Option.some.inj h, found⟩
  | failed new => cases h
  | recorded id new answer =>
    obtain rfl := Option.some.inj h
    have hvalid := (valid_forkLink_iff (hids.nonEmpty _ _ _ answer)).mpr hrecordable
    refine ⟨forkLink parent input id, rfl, ?_⟩
    rw [load_forkLink hs hids answer, threadLinkOf_linkJson.2 ⟨rfl, hvalid⟩,
      List.find?_append, new, Option.none_or]
    simp [replays_forkLink]

/-- The ids of a hub that answers every send. -/
def nextId (n : ℕ) : String := String.ofList (List.replicate (n + 1) 'm')

def answering (n : ℕ) : Ending := .answered (nextId n) true

lemma nextId_injective : Function.Injective nextId := by
  intro i j h
  have hlength := congrArg List.length (String.ofList_injective h)
  rw [List.length_replicate, List.length_replicate] at hlength
  omega

lemma nextId_ne_empty (n : ℕ) : nextId n ≠ "" := by
  intro h
  simpa using String.ofList_injective (h : _ = String.ofList [])

lemma nativeIds_answering : NativeIds answering where
  unique _ _ _ _ _ hi hj :=
    nextId_injective ((Ending.answered.inj hi).1.trans (Ending.answered.inj hj).1.symm)
  nonEmpty i _ _ h := (Ending.answered.inj h).1 ▸ nextId_ne_empty i

lemma forkSubThread_answering (hnew : (load s.storage key).find? (replays parent input) = none) :
    forkSubThread answering key s parent input = (some (nextId s.sent.length),
      ⟨record s.storage key (forkLink parent input (nextId s.sent.length)),
        s.sent ++ [forkMail parent input]⟩) := by
  rw [forkSubThread, hnew]
  rfl

/-- What cannot be recorded is sent twice. -/
lemma recordable_of_sentOnce (h : SentOnce key parent input) : Recordable parent input := by
  by_contra hnot
  let empty : StringStorage := fun _ => none
  have hfirst : forkSubThread answering key ⟨empty, []⟩ parent input = (some (nextId 0),
      ⟨record empty key (forkLink parent input (nextId 0)), [forkMail parent input]⟩) :=
    forkSubThread_answering rfl
  -- the link of the first send is not loaded
  have hdropped : threadLinkOf (linkJson (forkLink parent input (nextId 0))) = none := by
    refine Option.eq_none_iff_forall_ne_some.mpr fun row hrow => hnot ?_
    exact (valid_forkLink_iff (nextId_ne_empty 0)).mp (threadLinkOf_linkJson.1 hrow).2
  have hload : load (record empty key (forkLink parent input (nextId 0))) key = [] := by
    have hs : Loaded answering key ⟨empty, []⟩ := loaded_of_none rfl []
    have hload : load (record empty key (forkLink parent input (nextId 0))) key =
        load empty key ++ (threadLinkOf (linkJson (forkLink parent input (nextId 0)))).toList :=
      load_forkLink hs nativeIds_answering rfl
    rw [hload, hdropped]
    rfl
  have hnew : (load (record empty key (forkLink parent input (nextId 0))) key).find?
      (replays parent input) = none := by
    rw [hload]
    rfl
  have hsecond := forkSubThread_answering
    (s := ⟨record empty key (forkLink parent input (nextId 0)), [forkMail parent input]⟩) hnew
  have hreplayed := h.replayed answering nativeIds_answering empty rfl [] [] (nextId 0)
    (congrArg Prod.fst hfirst)
  simp only [afterForks, List.foldl_nil, hfirst, hsecond, Prod.mk.injEq, Option.some.injEq]
    at hreplayed
  exact absurd (nextId_injective hreplayed.1) (by simp)

end Workbench.Web.ForkSubThread
