import Workbench.Lib.Ancestry
import Workbench.Lib.Json
import Workbench.Lib.OrderedMap
import Workbench.Lib.OrderedSet
import Workbench.Lib.Regex
import Mathlib.Data.List.Sort

/-!
The threads of a list of messages.

A message belongs under the message that its headers name, if that is listed too. To find its
thread the code climbs from parent to parent; it never asks where it has been before, so it comes
to an end only when no message stands above itself. Fuel bounds the steps of one climb.
-/

namespace Workbench.Web.Threads

open Workbench.Lib Workbench.Lib.Regex

structure ThreadMessage where
  messageId : String
  fromAddress : String
  toAddresses : List String
  cc : Option (List String)
  subject : Option String
  listId : Option String
  inReplyTo : Option String
  references : Option (List String)

structure Thread where
  key : String
  rootMessageId : String
  messageIds : List String
  deriving DecidableEq

/-! ### Participants and subjects -/

section

-- `String.prototype.toLowerCase`, of which nothing is used
variable (toLowerCase : String → String)

def trimmed (text : String) : String := String.ofList (NumberText.trim text.toList)

def normalizeAddress (address : String) : String := toLowerCase (trimmed address)

def participantsOf (message : ThreadMessage) : OrderedSet String :=
  (OrderedSet.empty.insert (normalizeAddress toLowerCase message.fromAddress)).insertAll
    ((message.toAddresses ++ message.cc.getD []).map (normalizeAddress toLowerCase))

/-- `\s*` -/
def spaces : Regex := star (one NumberText.isTrimmed)

def character (c : Char) : Regex := one fun d => d = c

/-- `^\s*(re|fwd|fw|aw)(\s*\[[^\]]*\]|\s*:)+\s*` -/
def subjectPrefix : Regex :=
  seqs [start, spaces, alts (["re", "fwd", "fw", "aw"].map caseless),
    plus (alt (seqs [spaces, character '[', star (one fun c => c ≠ ']'), character ']'])
      (seq spaces (character ':'))), spaces]

/-- The subject without its first prefix. -/
def withoutPrefix (subject : String) : String :=
  match subjectPrefix.ends ⟨[], subject.toList⟩ with
  | [] => subject
  | rest :: _ => String.ofList rest.after

def normalizeSubject (subject : String) : String := toLowerCase (trimmed (withoutPrefix subject))

end

/-! ### Parents -/

def parentIdOf (message : ThreadMessage) (knownIds : List String) : Option String :=
  message.inReplyTo.filter (· ∈ knownIds) <|>
    (message.references.getD []).reverse.find? (· ∈ knownIds)

def knownIds (messages : List ThreadMessage) : List String := messages.map (·.messageId)

def setParent (known : List String) (parent : OrderedMap String String)
    (message : ThreadMessage) : OrderedMap String String :=
  match parentIdOf message known with
  | some parentId => parent.set message.messageId parentId
  | none => parent

def parents (messages : List ThreadMessage) : OrderedMap String String :=
  messages.foldl (setParent (knownIds messages)) .empty

def rootOf (parent : OrderedMap String String) (fuel : ℕ) (messageId : String) : Option String :=
  Ancestry.top parent.get fuel messageId

/-! ### Groups -/

structure Group where
  members : List ThreadMessage
  listId : Option String
  subject : Option String

def Group.push (group : Group) (message : ThreadMessage) : Group where
  members := group.members ++ [message]
  listId := group.listId <|> message.listId
  subject := group.subject <|> message.subject

def emptyGroup : Group := ⟨[], none, none⟩

def addToRoot (parent : OrderedMap String String) (fuel : ℕ) (byRoot : OrderedMap String Group)
    (message : ThreadMessage) : Option (OrderedMap String Group) :=
  (rootOf parent fuel message.messageId).map fun root =>
    byRoot.set root (((byRoot.get root).getD emptyGroup).push message)

def groupsByRoot (fuel : ℕ) (messages : List ThreadMessage) :
    Option (OrderedMap String Group) :=
  messages.foldlM (addToRoot (parents messages) fuel) .empty

/-- The code units by which `sort` orders texts. -/
def utf16Of (text : String) : List ℕ :=
  text.toList.flatMap fun c =>
    if c.toNat < 0x10000 then [c.toNat]
    else [0xd800 + (c.toNat - 0x10000) / 0x400, 0xdc00 + (c.toNat - 0x10000) % 0x400]

def unitsLe : List ℕ → List ℕ → Bool
  | [], _ => true
  | _ :: _, [] => false
  | m :: ms, n :: ns => m < n || m = n && unitsLe ms ns

def sorted (texts : List String) : List String :=
  texts.insertionSort fun a b => unitsLe (utf16Of a) (utf16Of b)

/-- `JSON.stringify` of an array of texts -/
def stringifyTexts (texts : List String) : String :=
  "[" ++ ",".intercalate (texts.map fun text => String.ofList (Json.quote text)) ++ "]"

section

variable (toLowerCase : String → String)

def participantKeyOf (group : Group) : String :=
  let members := group.members.foldl (fun members member =>
    members.insertAll (participantsOf toLowerCase member).elements) OrderedSet.empty
  stringifyTexts (sorted members.elements)

/-- The key under which a group is merged; none for a group that stays alone. -/
def mergeKeyOf (group : Group) : Option String :=
  match group.listId with
  | some listId => some ("list:" ++ listId)
  | none =>
    let subject := (group.subject.map (normalizeSubject toLowerCase)).getD ""
    if subject = "" then none
    else some ("subject:" ++ subject ++ "\x00participants:" ++ participantKeyOf toLowerCase group)

structure Merging where
  merged : OrderedMap String Group
  solo : List Group

def mergeGroup (state : Merging) (group : Group) : Merging :=
  match mergeKeyOf toLowerCase group with
  | none => { state with solo := state.solo ++ [group] }
  | some key =>
    match state.merged.get key with
    | none => { state with merged := state.merged.set key group }
    | some existing =>
      { state with
        merged := state.merged.set key
          { existing with members := existing.members ++ group.members } }

def mergeGroups (groups : List Group) : Merging :=
  groups.foldl (mergeGroup toLowerCase) ⟨.empty, []⟩

def threadOf (entry : String × Group) : Thread where
  key :=
    if entry.1 = "" then
      "message:" ++ (entry.2.members.head?.map (·.messageId)).getD "undefined"
    else entry.1
  rootMessageId := (entry.2.members.head?.map (·.messageId)).getD ""
  messageIds := entry.2.members.map (·.messageId)

def deriveThreads (fuel : ℕ) (messages : List ThreadMessage) : Option (List Thread) := do
  let byRoot ← groupsByRoot fuel messages
  let merging := mergeGroups toLowerCase byRoot.values
  return (merging.merged.entries ++ merging.solo.map fun group => ("", group)).map threadOf

end

/-! ### Whose parent is whose -/

variable {toLowerCase : String → String} {fuel fuel' : ℕ} {messages : List ThreadMessage}
  {message : ThreadMessage} {known : List String} {parent : OrderedMap String String}

/-- The parent of an id: of the messages with that id the last that has one counts. -/
def IsParent (messages : List ThreadMessage) (id parentId : String) : Prop :=
  ∃ earlier message later, messages = earlier ++ message :: later ∧ message.messageId = id ∧
    parentIdOf message (knownIds messages) = some parentId ∧
    ∀ other ∈ later, other.messageId = id → parentIdOf other (knownIds messages) = none

lemma get_setParent (id : String) :
    (setParent known parent message).get id =
      if message.messageId = id ∧ (parentIdOf message known).isSome then parentIdOf message known
      else parent.get id := by
  unfold setParent
  split
  · next parentId h =>
    rw [OrderedMap.get_set, h]
    by_cases hid : message.messageId = id
    · simp [hid]
    · simp [hid, Ne.symm hid]
  · next h => simp [h]

/-- What a stretch of messages adds to the parents. -/
lemma get_foldl_setParent (id parentId : String) :
    (messages.foldl (setParent known) parent).get id = some parentId ↔
      (∃ earlier message later, messages = earlier ++ message :: later ∧ message.messageId = id ∧
        parentIdOf message known = some parentId ∧
        ∀ other ∈ later, other.messageId = id → parentIdOf other known = none) ∨
      (parent.get id = some parentId ∧
        ∀ other ∈ messages, other.messageId = id → parentIdOf other known = none) := by
  induction messages generalizing parent with
  | nil => simp
  | cons message messages ih =>
    rw [List.foldl_cons, ih, get_setParent]
    constructor
    · rintro (⟨earlier, other, later, rfl, hother⟩ | ⟨hget, hnone⟩)
      · exact .inl ⟨message :: earlier, other, later, rfl, hother⟩
      · split at hget
        · next h => exact .inl ⟨[], message, messages, rfl, h.1, hget, hnone⟩
        · next h =>
          refine .inr ⟨hget, List.forall_mem_cons.mpr ⟨fun hid => ?_, hnone⟩⟩
          simpa [hid] using h
    · rintro (⟨_ | ⟨first, earlier⟩, other, later, heq, hid, hparent, hlater⟩ | ⟨hget, hnone⟩)
      · obtain ⟨rfl, rfl⟩ := List.cons.inj heq
        exact .inr ⟨by simp [hid, hparent], hlater⟩
      · obtain ⟨rfl, rfl⟩ := List.cons.inj heq
        exact .inl ⟨earlier, other, later, rfl, hid, hparent, hlater⟩
      · obtain ⟨hfirst, hrest⟩ := List.forall_mem_cons.mp hnone
        refine .inr ⟨?_, hrest⟩
        rw [if_neg fun h => by simp [hfirst h.1] at h]
        exact hget

lemma get_parents (id parentId : String) :
    (parents messages).get id = some parentId ↔ IsParent messages id parentId := by
  rw [parents, get_foldl_setParent]
  simp [IsParent]

lemma known_of_isParent {id parentId : String} (h : IsParent messages id parentId) :
    id ∈ knownIds messages := by
  obtain ⟨earlier, message, later, rfl, rfl, -⟩ := h
  exact List.mem_map_of_mem (by simp)

/-! ### When threads are derived -/

/-- No message stands above itself. -/
def Acyclic (messages : List ThreadMessage) : Prop :=
  ∀ id, ¬ Relation.TransGen (IsParent messages) id id

lemma acyclic_iff : Acyclic messages ↔ Ancestry.Acyclic (parents messages).get := by
  have hstep : IsParent messages = Ancestry.Step (parents messages).get := by
    funext id parentId
    exact propext (get_parents id parentId).symm
  rw [Acyclic, hstep]
  exact .rfl

lemma isSome_foldlM_addToRoot (byRoot : OrderedMap String Group) :
    (messages.foldlM (addToRoot parent fuel) byRoot).isSome ↔
      ∀ message ∈ messages, (rootOf parent fuel message.messageId).isSome := by
  induction messages generalizing byRoot with
  | nil => simp
  | cons message messages ih =>
    rw [List.foldlM_cons, List.forall_mem_cons]
    cases hroot : rootOf parent fuel message.messageId with
    | none => simp [addToRoot, hroot]
    | some root => simpa [addToRoot, hroot] using ih _

lemma isSome_deriveThreads : (deriveThreads toLowerCase fuel messages).isSome ↔
    ∀ message ∈ messages, (rootOf (parents messages) fuel message.messageId).isSome := by
  rw [← isSome_foldlM_addToRoot .empty]
  unfold deriveThreads groupsByRoot
  cases messages.foldlM (addToRoot (parents messages) fuel) OrderedMap.empty <;> simp

lemma acyclic_of_returns (h : (deriveThreads toLowerCase fuel messages).isSome) :
    Acyclic messages := by
  rw [isSome_deriveThreads] at h
  rintro id hcycle
  obtain ⟨parentId, hparent, -⟩ := Relation.TransGen.head'_iff.mp hcycle
  obtain ⟨message, hmem, rfl⟩ := List.mem_map.mp (known_of_isParent hparent)
  have hnone : rootOf (parents messages) fuel message.messageId = none :=
    Ancestry.top_of_cycle
      (Relation.TransGen.mono (fun a b h => (get_parents a b).mpr h) _ _ hcycle)
  simpa [hnone] using h message hmem

/-- As many steps for each message as there are messages, and one more, are enough. -/
lemma returns_of_acyclic (h : Acyclic messages) :
    (deriveThreads toLowerCase (messages.length + 1) messages).isSome := by
  rw [isSome_deriveThreads]
  intro message _
  have hlength : messages.length = (knownIds messages).length := (List.length_map _).symm
  rw [hlength]
  exact Ancestry.top_isSome (fun a b h => known_of_isParent ((get_parents a b).mp h))
    (acyclic_iff.1 h) message.messageId

/-- **Threads are derived** in finitely many steps exactly when no message stands above itself. -/
theorem deriveThreads_returns_iff :
    (∃ fuel, (deriveThreads toLowerCase fuel messages).isSome) ↔ Acyclic messages :=
  ⟨fun ⟨_, h⟩ => acyclic_of_returns h, fun h => ⟨_, returns_of_acyclic h⟩⟩

/-- A message that names itself as the one it answers. -/
def selfReply : ThreadMessage where
  messageId := "<m1@hub>"
  fromAddress := "ana@hub"
  toAddresses := ["scout@hub"]
  cc := none
  subject := some "Plans"
  listId := none
  inReplyTo := some "<m1@hub>"
  references := none

theorem selfReply_derives_nothing :
    ¬ ∃ fuel, (deriveThreads String.toLower fuel [selfReply]).isSome := by
  rintro ⟨fuel, h⟩
  have hself : IsParent [selfReply] selfReply.messageId selfReply.messageId :=
    ⟨[], selfReply, [], rfl, rfl, by decide, by simp⟩
  exact acyclic_of_returns h _ (.single hself)

end Workbench.Web.Threads
