import Workbench.Lib.OrderedMap
import Workbench.Lib.OrderedSet
import Mathlib.Data.List.Chain
import Mathlib.Data.List.Perm.Subperm

/-!
The turns above the turn a person opened.

The parent of a turn is named by a header of a mail, so it may not be listed, and turns may name
each other in a circle. The walk goes from a turn to its parent, puts what it comes to in front, and
stops where it has been before.
-/

namespace Workbench.Web.AncestorChain

open Workbench.Lib

structure WorkbenchMessage where
  id : String
  messageId : String
  parentMessageId : Option String
  deriving DecidableEq

abbrev MessageMap := OrderedMap String WorkbenchMessage

/-- `new Map(messages.map((message) => [message.messageId, message]))` -/
def byMessageId (messages : List WorkbenchMessage) : MessageMap :=
  messages.foldl (fun byId message => byId.set message.messageId message) .empty

/-- The loop, so many rounds of it. -/
def climb (byId : MessageMap) : ℕ → Option WorkbenchMessage → OrderedSet String →
    List WorkbenchMessage → Option (List WorkbenchMessage)
  | 0, _, _, _ => none
  | fuel + 1, current, seen, chain =>
    match current with
    | none => some chain
    | some message =>
      if message.messageId ∈ seen.elements then some chain
      else climb byId fuel (message.parentMessageId.bind byId.get) (seen.insert message.messageId)
        (message :: chain)

def ancestorChain (fuel : ℕ) (messages : List WorkbenchMessage) (messageId : String) :
    Option (List WorkbenchMessage) :=
  climb (byMessageId messages) fuel ((byMessageId messages).get messageId) .empty []

/-- The message that is listed under an id: the last one that has it. -/
def listed (messages : List WorkbenchMessage) (messageId : String) : Option WorkbenchMessage :=
  messages.reverse.find? fun message => message.messageId = messageId

/-- The messages from one that has no listed parent, or whose parent comes later in the list, down
to the one listed under the id. -/
structure IsAncestorChain (messages : List WorkbenchMessage) (messageId : String)
    (chain : List WorkbenchMessage) : Prop where
  listed : ∀ message ∈ chain, listed messages message.messageId = some message
  last : ∃ message, AncestorChain.listed messages messageId = some message ∧
    chain.getLast? = some message
  once : (chain.map (·.messageId)).Nodup
  linked : chain.IsChain fun parent message => message.parentMessageId = some parent.messageId
  maximal : ∀ first ∈ chain.head?, ∀ parentId ∈ first.parentMessageId,
    AncestorChain.listed messages parentId = none ∨ parentId ∈ chain.map (·.messageId)

variable {messages : List WorkbenchMessage} {messageId : String} {fuel : ℕ}
  {current : Option WorkbenchMessage} {seen : OrderedSet String} {chain : List WorkbenchMessage}
  {message : WorkbenchMessage}

/-! ### What is listed -/

lemma get_foldl_set (messages : List WorkbenchMessage) (byId : MessageMap) (messageId : String) :
    (messages.foldl (fun byId message => byId.set message.messageId message) byId).get messageId =
      (listed messages messageId <|> byId.get messageId) := by
  induction messages generalizing byId with
  | nil => simp [listed]
  | cons message messages ih =>
    have hcons : listed (message :: messages) messageId = (listed messages messageId <|>
        [message].find? fun other => other.messageId = messageId) := by
      rw [listed, List.reverse_cons, List.find?_append, Option.or_eq_orElse]
      rfl
    rw [List.foldl_cons, ih, hcons, OrderedMap.get_set]
    cases listed messages messageId with
    | some other => rfl
    | none =>
      by_cases h : messageId = message.messageId
      · simp [h]
      · simp [h, Ne.symm h]

lemma get_byMessageId : (byMessageId messages).get messageId = listed messages messageId := by
  rw [byMessageId, get_foldl_set, OrderedMap.get_empty]
  cases listed messages messageId <;> rfl

lemma listed_some (h : listed messages messageId = some message) :
    message ∈ messages ∧ message.messageId = messageId :=
  ⟨List.mem_reverse.mp (List.mem_of_find?_eq_some h), by simpa using List.find?_some h⟩

lemma exists_listed (h : message ∈ messages) :
    ∃ other, listed messages message.messageId = some other := by
  rw [← Option.isSome_iff_exists, listed, List.find?_isSome]
  exact ⟨message, List.mem_reverse.mpr h, by simp⟩

/-! ### The walk -/

/-- What holds whenever the loop is entered: the chain so far is an ancestor chain but for the end
of the walk, and the walk stands at the parent of its first message. -/
structure Walked (messages : List WorkbenchMessage) (messageId : String)
    (current : Option WorkbenchMessage) (seen : OrderedSet String)
    (chain : List WorkbenchMessage) : Prop where
  listed : ∀ message ∈ chain, listed messages message.messageId = some message
  once : (chain.map (·.messageId)).Nodup
  linked : chain.IsChain fun parent message => message.parentMessageId = some parent.messageId
  seen_iff : ∀ id, id ∈ seen.elements ↔ id ∈ chain.map (·.messageId)
  starts : chain = [] → current = AncestorChain.listed messages messageId
  ends : chain ≠ [] → chain.getLast? = AncestorChain.listed messages messageId
  stands : ∀ first ∈ chain.head?,
    current = first.parentMessageId.bind (AncestorChain.listed messages)

lemma walked_start : Walked messages messageId (listed messages messageId) .empty [] where
  listed := by simp
  once := List.nodup_nil
  linked := .nil
  seen_iff := by simp
  starts _ := rfl
  ends h := absurd rfl h
  stands := by simp

/-- Where the walk stands is listed, and is the parent of the first message of the chain. -/
lemma Walked.current_listed (h : Walked messages messageId (some message) seen chain) :
    AncestorChain.listed messages message.messageId = some message := by
  cases chain with
  | nil =>
    have hlisted := (h.starts rfl).symm
    rwa [(listed_some hlisted).2]
  | cons first chain =>
    obtain ⟨parentId, -, hlisted⟩ := Option.bind_eq_some_iff.mp (h.stands first rfl).symm
    rwa [(listed_some hlisted).2]

lemma Walked.step (h : Walked messages messageId (some message) seen chain)
    (hnew : message.messageId ∉ seen.elements) :
    Walked messages messageId (message.parentMessageId.bind (AncestorChain.listed messages))
      (seen.insert message.messageId) (message :: chain) where
  listed := List.forall_mem_cons.mpr ⟨h.current_listed, h.listed⟩
  once := by
    rw [List.map_cons, List.nodup_cons, ← h.seen_iff]
    exact ⟨hnew, h.once⟩
  linked := by
    refine List.isChain_cons.mpr ⟨fun first hfirst => ?_, h.linked⟩
    obtain ⟨parentId, hparent, hlisted⟩ := Option.bind_eq_some_iff.mp (h.stands first hfirst).symm
    rw [hparent, (listed_some hlisted).2]
  seen_iff id := by
    rw [OrderedSet.mem_insert, h.seen_iff, List.map_cons, List.mem_cons, or_comm]
  starts := fun hnil => absurd hnil (List.cons_ne_nil _ _)
  ends _ := by
    cases chain with
    | nil => exact h.starts rfl
    | cons first chain =>
      rw [List.getLast?_cons_cons]
      exact h.ends (List.cons_ne_nil _ _)
  stands := by
    rintro first ⟨⟩
    rfl

/-- The chain holds listed messages, none twice, so there are not more of them than are listed. -/
lemma Walked.length_le (h : Walked messages messageId current seen chain) :
    chain.length ≤ messages.length := by
  have hsub : chain.map (·.messageId) ⊆ messages.map (·.messageId) := by
    intro id hid
    obtain ⟨message, hmem, rfl⟩ := List.mem_map.mp hid
    exact List.mem_map_of_mem (listed_some (h.listed message hmem)).1
  simpa using (List.subperm_of_subset h.once hsub).length_le

/-- The walk has come to its end. -/
lemma Walked.isAncestorChain (h : Walked messages messageId current seen chain)
    (hlisted : AncestorChain.listed messages messageId ≠ none)
    (hend : ∀ message ∈ current, message.messageId ∈ seen.elements) :
    IsAncestorChain messages messageId chain where
  listed := h.listed
  once := h.once
  linked := h.linked
  last := by
    obtain ⟨message, hmessage⟩ := Option.ne_none_iff_exists'.mp hlisted
    refine ⟨message, hmessage, (h.ends ?_).trans hmessage⟩
    rintro rfl
    have hseen := hend message ((h.starts rfl).trans hmessage)
    exact absurd ((h.seen_iff _).mp hseen) List.not_mem_nil
  maximal := by
    intro first hfirst parentId hparent
    cases hother : AncestorChain.listed messages parentId with
    | none => exact .inl rfl
    | some parent =>
      right
      have hcurrent : current = some parent := by
        rw [h.stands first hfirst, hparent, Option.bind_some, hother]
      rw [← (listed_some hother).2, ← h.seen_iff]
      exact hend parent hcurrent

lemma climb_spec (h : Walked messages messageId current seen chain)
    (hlisted : AncestorChain.listed messages messageId ≠ none)
    (hfuel : messages.length < fuel + chain.length) :
    ∃ result, climb (byMessageId messages) fuel current seen chain = some result ∧
      IsAncestorChain messages messageId result := by
  induction fuel generalizing current seen chain with
  | zero =>
    have hle := h.length_le
    omega
  | succ fuel ih =>
    cases current with
    | none => exact ⟨chain, rfl, h.isAncestorChain hlisted (by simp)⟩
    | some message =>
      by_cases hseen : message.messageId ∈ seen.elements
      · refine ⟨chain, if_pos hseen, h.isAncestorChain hlisted ?_⟩
        rintro _ ⟨⟩
        exact hseen
      · have hget : (byMessageId messages).get = AncestorChain.listed messages :=
          funext fun _ => get_byMessageId
        simp only [climb, if_neg hseen, hget]
        exact ih (h.step hseen) (by rw [List.length_cons]; omega)

/-- **The chain of a listed message** is found in no more rounds than there are messages, and one:
it goes from message to parent, no message is in it twice, and it goes as far up as it can. -/
theorem ancestorChain_spec (messages : List WorkbenchMessage) (message : WorkbenchMessage)
    (h : message ∈ messages) :
    ∃ chain, ancestorChain (messages.length + 1) messages message.messageId = some chain ∧
      IsAncestorChain messages message.messageId chain := by
  obtain ⟨other, hother⟩ := exists_listed h
  rw [ancestorChain, get_byMessageId]
  exact climb_spec walked_start (by rw [hother]; exact Option.some_ne_none _) (by simp)

/-- Two messages that name each other as parents, and a third below them. -/
def circle : List WorkbenchMessage :=
  [⟨"1", "a", some "b"⟩, ⟨"2", "b", some "a"⟩, ⟨"3", "c", some "b"⟩]

theorem ancestorChain_spec_circle : ∃ chain, ancestorChain 4 circle "c" = some chain ∧
    IsAncestorChain circle "c" chain ∧ chain.map (·.messageId) = ["a", "b", "c"] := by
  obtain ⟨chain, hchain, hspec⟩ := ancestorChain_spec circle ⟨"3", "c", some "b"⟩ (by decide)
  have heval : ancestorChain 4 circle "c" =
      some [⟨"1", "a", some "b"⟩, ⟨"2", "b", some "a"⟩, ⟨"3", "c", some "b"⟩] := by decide
  obtain rfl := Option.some.inj (hchain.symm.trans heval)
  exact ⟨_, hchain, hspec, rfl⟩

end Workbench.Web.AncestorChain
