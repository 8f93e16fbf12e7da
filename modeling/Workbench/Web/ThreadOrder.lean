import Mathlib.Data.List.Pairwise
import Workbench.Lib.Utf16
import Workbench.Web.ThreadPartition

/-!
What the threads owe to the order of the messages.

The trees do not depend on it, and neither do the participants of a tree, which are sorted. A tree
takes its List-ID and its subject from the first of its messages that has one, and these decide with
which trees it is merged: where the messages of a tree disagree, the order decides.
-/

namespace Workbench.Web.Threads

open List Workbench.Lib

variable {toLowerCase : String → String} {fuel fuel' : ℕ} {messages messages' : List ThreadMessage}
  {message : ThreadMessage} {threads threads' : List Thread} {thread thread' : Thread}
  {root id id' : String}

/-! ### Sorting -/

/-- The code units of one character. -/
def unitsOf (c : Char) : List ℕ :=
  if c.toNat < 0x10000 then [c.toNat]
  else [0xd800 + (c.toNat - 0x10000) / 0x400, 0xdc00 + (c.toNat - 0x10000) % 0x400]

lemma utf16Of_injective : Function.Injective utf16Of := by
  have hall (cs ds : List Char) (h : cs.flatMap unitsOf = ds.flatMap unitsOf) : cs = ds :=
    Utf16.encode_injective h
  exact fun a b h => String.toList_injective (hall a.toList b.toList h)

lemma unitsLe_total (ms ns : List ℕ) : unitsLe ms ns ∨ unitsLe ns ms := by
  induction ms generalizing ns with
  | nil => exact .inl rfl
  | cons m ms ih =>
    cases ns with
    | nil => exact .inr rfl
    | cons n ns =>
      rcases Nat.lt_trichotomy m n with h | rfl | h
      · exact .inl (by simp [unitsLe, h])
      · simpa [unitsLe] using ih ns
      · exact .inr (by simp [unitsLe, h])

lemma unitsLe_trans {ls ms ns : List ℕ} (h : unitsLe ls ms) (h' : unitsLe ms ns) :
    unitsLe ls ns := by
  induction ls generalizing ms ns with
  | nil => rfl
  | cons l ls ih =>
    cases ms with
    | nil => cases h
    | cons m ms =>
      cases ns with
      | nil => cases h'
      | cons n ns =>
        simp only [unitsLe, Bool.or_eq_true, decide_eq_true_eq, Bool.and_eq_true] at h h' ⊢
        rcases h with h | ⟨rfl, h⟩ <;> rcases h' with h' | ⟨rfl, h'⟩
        · exact .inl (h.trans h')
        · exact .inl h
        · exact .inl h'
        · exact .inr ⟨rfl, ih h h'⟩

lemma unitsLe_antisymm {ms ns : List ℕ} (h : unitsLe ms ns) (h' : unitsLe ns ms) : ms = ns := by
  induction ms generalizing ns with
  | nil =>
    cases ns with
    | nil => rfl
    | cons n ns => cases h'
  | cons m ms ih =>
    cases ns with
    | nil => cases h
    | cons n ns =>
      simp only [unitsLe, Bool.or_eq_true, decide_eq_true_eq, Bool.and_eq_true] at h h'
      rcases h with h | ⟨rfl, h⟩
      · omega
      · rcases h' with h' | ⟨-, h'⟩
        · omega
        · rw [ih h h']

/-- **Texts are sorted alike** in whatever order they come. -/
lemma sorted_of_perm {texts texts' : List String} (h : texts ~ texts') :
    sorted texts = sorted texts' := by
  let le := fun a b : String => unitsLe (utf16Of a) (utf16Of b) = true
  have : Std.Total le := ⟨fun a b => unitsLe_total _ _⟩
  have : IsTrans String le := ⟨fun a b c => unitsLe_trans⟩
  have hperm : texts.insertionSort le ~ texts'.insertionSort le :=
    (perm_insertionSort le texts).trans (h.trans (perm_insertionSort le texts').symm)
  refine Perm.eq_of_pairwise ?_ (pairwise_insertionSort le texts)
    (pairwise_insertionSort le texts') hperm
  intro a b _ _ hab hba
  exact utf16Of_injective (unitsLe_antisymm hab hba)

/-! ### The participants of a tree -/

lemma mem_foldl_insertAll {members : List ThreadMessage} {set : OrderedSet String} {a : String} :
    a ∈ (members.foldl (fun set member =>
      set.insertAll (participantsOf toLowerCase member).elements) set).elements ↔
      a ∈ set.elements ∨ ∃ member ∈ members, a ∈ (participantsOf toLowerCase member).elements := by
  induction members generalizing set with
  | nil => simp
  | cons member members ih =>
    rw [List.foldl_cons, ih, OrderedSet.mem_insertAll]
    simp only [List.mem_cons, exists_eq_or_imp, or_assoc]

lemma participantKeyOf_of_perm {group group' : Group} (h : group.members ~ group'.members) :
    participantKeyOf toLowerCase group = participantKeyOf toLowerCase group' := by
  unfold participantKeyOf
  refine congrArg stringifyTexts (sorted_of_perm ?_)
  refine (List.perm_ext_iff_of_nodup (OrderedSet.nodup _) (OrderedSet.nodup _)).mpr fun a => ?_
  rw [mem_foldl_insertAll, mem_foldl_insertAll]
  simp only [h.mem_iff]

/-! ### The trees of a permutation -/

lemma parentIdOf_congr {known known' : List String} (h : ∀ id, id ∈ known ↔ id ∈ known') :
    parentIdOf message known = parentIdOf message known' := by
  simp only [parentIdOf, h]

lemma isParent_iff (hids : (knownIds messages).Nodup) : IsParent messages id id' ↔
    ∃ message ∈ messages, message.messageId = id ∧
      parentIdOf message (knownIds messages) = some id' := by
  constructor
  · rintro ⟨earlier, message, later, rfl, hid, hparent, -⟩
    exact ⟨message, by simp, hid, hparent⟩
  · rintro ⟨message, hmem, rfl, hparent⟩
    exact isParent_of_parentIdOf hids hmem hparent

/-- The parents do not depend on the order. -/
lemma get_parents_of_perm (hperm : messages ~ messages') (hids : (knownIds messages).Nodup) :
    (parents messages).get = (parents messages').get := by
  have hknown : knownIds messages ~ knownIds messages' := hperm.map _
  funext id
  refine Option.ext fun parentId => ?_
  rw [get_parents, get_parents, isParent_iff hids, isParent_iff (hknown.nodup_iff.mp hids)]
  simp only [hperm.mem_iff, parentIdOf_congr fun id => hknown.mem_iff]

/-- A tree has the same messages in any order. -/
lemma treeOf_perm (hperm : messages ~ messages') (hids : (knownIds messages).Nodup)
    (hall : ∀ id ∈ knownIds messages, (rootOf (parents messages) fuel id).isSome)
    (hall' : ∀ id ∈ knownIds messages', (rootOf (parents messages') fuel' id).isSome)
    (root : String) : treeOf fuel messages root ~ treeOf fuel' messages' root := by
  have hroot : ∀ message ∈ messages', rootOf (parents messages) fuel message.messageId =
      rootOf (parents messages') fuel' message.messageId := by
    intro message hmem
    have hmem' : message.messageId ∈ knownIds messages' := List.mem_map_of_mem hmem
    obtain ⟨top, htop⟩ := Option.isSome_iff_exists.mp
      (hall message.messageId ((hperm.map _).mem_iff.mpr hmem'))
    obtain ⟨top', htop'⟩ := Option.isSome_iff_exists.mp (hall' message.messageId hmem')
    rw [htop, htop']
    rw [rootOf, get_parents_of_perm hperm hids] at htop
    rw [Ancestry.top_unique htop htop']
  refine (hperm.filter _).trans (.of_eq (List.filter_congr fun message hmem => ?_))
  rw [hroot message hmem]

/-! ### The threads of a permutation -/

/-- The sets of ids that the threads are. -/
def blocks (threads : List Thread) : Set (Set String) :=
  {block | ∃ thread ∈ threads, block = {id | id ∈ thread.messageIds}}

/-- The first List-ID in a tree. -/
def treeListId (messages : List ThreadMessage) (root : String) : Option String :=
  (treeOf (messages.length + 1) messages root).findSome? (·.listId)

/-- The first subject in a tree, normalized. -/
def treeSubject (toLowerCase : String → String) (messages : List ThreadMessage) (root : String) :
    String :=
  (((treeOf (messages.length + 1) messages root).findSome? (·.subject)).map
    (normalizeSubject toLowerCase)).getD ""

/-- In both orders each tree has the same List-ID, or without one the same subject. -/
structure SameLabels (toLowerCase : String → String) (messages messages' : List ThreadMessage) :
    Prop where
  listId : ∀ root, treeListId messages root = treeListId messages' root
  subject : ∀ root, treeListId messages root = none →
    treeSubject toLowerCase messages root = treeSubject toLowerCase messages' root

lemma rootOf_isSome_of_derived (h : deriveThreads toLowerCase fuel messages = some threads) :
    ∀ id ∈ knownIds messages, (rootOf (parents messages) fuel id).isSome := by
  obtain ⟨byRoot, hroots, -⟩ := deriveThreads_eq h
  exact fun id hid => Option.isSome_iff_exists.mpr (rootOf_isSome hroots hid)

lemma treeOf_eq (hacyclic : Acyclic messages)
    (h : deriveThreads toLowerCase fuel messages = some threads) (root : String) :
    treeOf fuel messages root = treeOf (messages.length + 1) messages root := by
  obtain ⟨threads', h'⟩ :=
    Option.isSome_iff_exists.mp (@returns_of_acyclic toLowerCase messages hacyclic)
  refine List.filter_congr fun message hmem => ?_
  have hknown : message.messageId ∈ knownIds messages := List.mem_map_of_mem hmem
  obtain ⟨top, htop⟩ := Option.isSome_iff_exists.mp (rootOf_isSome_of_derived h _ hknown)
  obtain ⟨top', htop'⟩ := Option.isSome_iff_exists.mp (rootOf_isSome_of_derived h' _ hknown)
  rw [htop, htop', Ancestry.top_unique htop htop']

/-- A tree has the same mark in both orders. -/
lemma markOf_of_perm (hperm : messages ~ messages') (hids : (knownIds messages).Nodup)
    (hacyclic : Acyclic messages) (hacyclic' : Acyclic messages')
    (hlabels : SameLabels toLowerCase messages messages')
    (h : deriveThreads toLowerCase fuel messages = some threads)
    (h' : deriveThreads toLowerCase fuel' messages' = some threads') (root : String) :
    markOf toLowerCase fuel messages root = markOf toLowerCase fuel' messages' root := by
  have hlist := hlabels.listId root
  have hsubject := hlabels.subject root
  have hparticipants : participantKeyOf toLowerCase (groupOf (treeOf fuel messages root)) =
      participantKeyOf toLowerCase (groupOf (treeOf fuel' messages' root)) := by
    refine participantKeyOf_of_perm ?_
    rw [groupOf_eq, groupOf_eq]
    exact treeOf_perm hperm hids (rootOf_isSome_of_derived h) (rootOf_isSome_of_derived h') root
  have hkey : mergeKeyOf toLowerCase (groupOf (treeOf fuel messages root)) =
      mergeKeyOf toLowerCase (groupOf (treeOf fuel' messages' root)) := by
    unfold mergeKeyOf
    rw [hparticipants]
    simp only [treeListId, treeSubject, ← treeOf_eq hacyclic h, ← treeOf_eq hacyclic' h']
      at hlist hsubject
    simp only [groupOf_eq]
    rw [← hlist]
    cases hl : (treeOf fuel messages root).findSome? (·.listId) with
    | some listId => rfl
    | none => simp only [hsubject hl]
  rw [markOf, markOf, hkey]

lemma acyclic_of_perm (hperm : messages ~ messages') (hids : (knownIds messages).Nodup)
    (hacyclic : Acyclic messages) : Acyclic messages' := by
  rw [acyclic_iff] at hacyclic ⊢
  rwa [← get_parents_of_perm hperm hids]

/-- The same ids are together in both orders. -/
lemma sameThread_of_perm (hperm : messages ~ messages') (hids : (knownIds messages).Nodup)
    (hacyclic : Acyclic messages) (hlabels : SameLabels toLowerCase messages messages')
    (h : deriveThreads toLowerCase fuel messages = some threads)
    (h' : deriveThreads toLowerCase fuel' messages' = some threads')
    (hmem : id ∈ knownIds messages) (hmem' : id' ∈ knownIds messages) :
    SameThread threads id id' ↔ SameThread threads' id id' := by
  have hknown : knownIds messages ~ knownIds messages' := hperm.map _
  have hget := get_parents_of_perm hperm hids
  have hroots : ∀ id ∈ knownIds messages, ∃ root, rootOf (parents messages) fuel id = some root ∧
      rootOf (parents messages') fuel' id = some root := by
    intro id hid
    obtain ⟨top, htop⟩ := Option.isSome_iff_exists.mp (rootOf_isSome_of_derived h id hid)
    obtain ⟨top', htop'⟩ := Option.isSome_iff_exists.mp
      (rootOf_isSome_of_derived h' id (hknown.mem_iff.mp hid))
    have htop'' := htop
    rw [rootOf, hget] at htop''
    exact ⟨top, htop, by rw [htop', Ancestry.top_unique htop'' htop']⟩
  obtain ⟨root, hroot, hroot'⟩ := hroots id hmem
  obtain ⟨top, htop, htop'⟩ := hroots id' hmem'
  rw [sameThread_iff h hmem hmem' hroot htop, sameThread_iff h' (hknown.mem_iff.mp hmem)
    (hknown.mem_iff.mp hmem') hroot' htop']
  have hacyclic' := acyclic_of_perm hperm hids hacyclic
  have hmark := markOf_of_perm hperm hids hacyclic hacyclic' hlabels h h'
  rw [hmark, hmark]

lemma exists_mem_thread (h : deriveThreads toLowerCase fuel messages = some threads)
    (hthread : thread ∈ threads) : ∃ id, id ∈ thread.messageIds := by
  obtain ⟨byRoot, hroots, -⟩ := deriveThreads_eq h
  have hvalue : ∀ group ∈ byRoot.values, ∃ message, message ∈ group.members := by
    intro group hgroup
    obtain ⟨root, hne, rfl⟩ := (mem_values_groupsByRoot hroots).mp hgroup
    rw [groupOf_eq]
    exact List.exists_mem_of_ne_nil _ hne
  rcases (mem_threads hroots h).mp hthread with ⟨key, merged, hmerged, rfl⟩ |
    ⟨group, hgroup, -, rfl⟩
  · have hmembers := members_merged hmerged
    rw [get_merged] at hmerged
    cases hl : byRoot.values.filter (mergeKeyOf toLowerCase · = some key) with
    | nil => simp [hl] at hmerged
    | cons first rest =>
      have hfirst : first ∈ byRoot.values.filter (mergeKeyOf toLowerCase · = some key) := by
        simp [hl]
      obtain ⟨message, hmessage⟩ := hvalue first (List.mem_filter.mp hfirst).1
      refine ⟨message.messageId, List.mem_map_of_mem ?_⟩
      rw [hmembers]
      exact List.mem_flatMap.mpr ⟨first, hfirst, hmessage⟩
  · obtain ⟨message, hmessage⟩ := hvalue group hgroup
    exact ⟨message.messageId, List.mem_map_of_mem hmessage⟩

/-- Two threads have no id in common. -/
lemma thread_unique (hids : (knownIds messages).Nodup)
    (h : deriveThreads toLowerCase fuel messages = some threads) (hthread : thread ∈ threads)
    (hthread' : thread' ∈ threads) (hid : id ∈ thread.messageIds)
    (hid' : id ∈ thread'.messageIds) : thread = thread' := by
  have hnodup : (threads.flatMap (·.messageIds)).Nodup :=
    (messageIds_deriveThreads h).nodup_iff.mpr hids
  have : Std.Symm (Function.onFun List.Disjoint fun thread : Thread => thread.messageIds) :=
    ⟨fun _ _ hdisjoint id hid hid' => hdisjoint hid' hid⟩
  by_contra hne
  exact (List.nodup_flatMap.mp hnodup).2.forall hthread hthread' hne hid hid'

/-- The threads are the classes of the ids that are together. -/
lemma mem_blocks_iff (hids : (knownIds messages).Nodup)
    (h : deriveThreads toLowerCase fuel messages = some threads) {block : Set String} :
    block ∈ blocks threads ↔
      ∃ id ∈ knownIds messages, block = {id' | id' ∈ knownIds messages ∧
        SameThread threads id id'} := by
  have hknown : ∀ {thread id}, thread ∈ threads → id ∈ thread.messageIds → id ∈ knownIds messages :=
    fun hthread hid => (messageIds_deriveThreads h).subset (List.mem_flatMap.mpr ⟨_, hthread, hid⟩)
  have hclass : ∀ {thread id}, thread ∈ threads → id ∈ thread.messageIds →
      {id' | id' ∈ thread.messageIds} =
        {id' | id' ∈ knownIds messages ∧ SameThread threads id id'} := by
    intro thread id hthread hid
    ext id'
    constructor
    · exact fun hid' => ⟨hknown hthread hid', thread, hthread, hid, hid'⟩
    · rintro ⟨-, other, hother, hin, hin'⟩
      rw [thread_unique hids h hthread hother hid hin]
      exact hin'
  constructor
  · rintro ⟨thread, hthread, rfl⟩
    obtain ⟨id, hid⟩ := exists_mem_thread h hthread
    exact ⟨id, hknown hthread hid, hclass hthread hid⟩
  · rintro ⟨id, hid, rfl⟩
    have hin : id ∈ threads.flatMap (·.messageIds) := (messageIds_deriveThreads h).mem_iff.mpr hid
    obtain ⟨thread, hthread, hin⟩ := List.mem_flatMap.mp hin
    exact ⟨thread, hthread, (hclass hthread hin).symm⟩

/-- A message of a mailing list. -/
def listPost (messageId listId : String) (inReplyTo : Option String) : ThreadMessage where
  messageId := messageId
  fromAddress := "ana@hub"
  toAddresses := ["scout@hub"]
  cc := none
  subject := none
  listId := some listId
  inReplyTo := inReplyTo
  references := none

end Workbench.Web.Threads
