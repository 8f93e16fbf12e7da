import Workbench.Lib.Grouping
import Workbench.Web.Threads

/-!
How the threads partition the messages.

The messages below one root are a tree, which is kept together; the trees with one merge key make
a thread, and a tree without a merge key is a thread of its own. Both steps are groupings by a key,
in which nothing is lost.
-/

namespace Workbench.Web.Threads

open List Workbench.Lib Workbench.Lib.Grouping

variable {toLowerCase : String → String} {fuel : ℕ} {messages : List ThreadMessage}
  {message : ThreadMessage} {parent : OrderedMap String String}
  {byRoot byRoot' : OrderedMap String Group} {threads : List Thread} {thread : Thread}
  {groups : List Group} {group : Group} {key root root' : String}

/-! ### The trees -/

def groupOf (members : List ThreadMessage) : Group := members.foldl Group.push emptyGroup

lemma foldl_push (group : Group) (members : List ThreadMessage) :
    members.foldl Group.push group =
      ⟨group.members ++ members, group.listId <|> members.findSome? (·.listId),
        group.subject <|> members.findSome? (·.subject)⟩ := by
  induction members generalizing group with
  | nil => simp
  | cons message members ih =>
    rw [List.foldl_cons, ih, Group.push]
    cases hl : message.listId <;> cases hs : message.subject <;>
      cases group.listId <;> cases group.subject <;> simp [hl, hs]

lemma groupOf_eq (members : List ThreadMessage) : groupOf members =
    ⟨members, members.findSome? (·.listId), members.findSome? (·.subject)⟩ :=
  foldl_push emptyGroup members

/-- The group of a root, with one more member. -/
def addMember (group : Option Group) (message : ThreadMessage) : Group :=
  (group.getD emptyGroup).push message

lemma foldl_addMember {members : List ThreadMessage} (h : members ≠ []) :
    members.foldl (fun group message => some (addMember group message)) none =
      some (groupOf members) := by
  have hall : ∀ (l : List ThreadMessage) (group : Group),
      l.foldl (fun group message => some (addMember group message)) (some group) =
        some (l.foldl Group.push group) := by
    intro l
    induction l with
    | nil => exact fun group => rfl
    | cons message l ih => exact fun group => ih (group.push message)
  cases members with
  | nil => exact absurd rfl h
  | cons message members => exact hall members (emptyGroup.push message)

/-- The messages below a root. -/
def treeOf (fuel : ℕ) (messages : List ThreadMessage) (root : String) : List ThreadMessage :=
  messages.filter fun message => rootOf (parents messages) fuel message.messageId = some root

lemma foldlM_addToRoot (h : messages.foldlM (addToRoot parent fuel) byRoot = some byRoot') :
    byRoot' = collect (fun message => (rootOf parent fuel message.messageId).getD "") addMember
      byRoot messages := by
  induction messages generalizing byRoot with
  | nil => exact (Option.some.inj h).symm
  | cons message messages ih =>
    rw [List.foldlM_cons] at h
    obtain ⟨next, hnext, hrest⟩ := Option.bind_eq_some_iff.mp h
    rw [ih hrest]
    obtain ⟨root, hroot, rfl⟩ := Option.map_eq_some_iff.mp hnext
    simp [collect, put, hroot, addMember]

lemma rootOf_isSome (h : groupsByRoot fuel messages = some byRoot) {id : String}
    (hmem : id ∈ knownIds messages) : ∃ root, rootOf (parents messages) fuel id = some root := by
  have hsome : (groupsByRoot fuel messages).isSome := by
    rw [h]
    rfl
  have hall := (isSome_foldlM_addToRoot .empty).mp hsome
  obtain ⟨message, hmessage, rfl⟩ := List.mem_map.mp hmem
  exact Option.isSome_iff_exists.mp (hall message hmessage)

/-- **The groups by root** are the trees. -/
theorem get_groupsByRoot (h : groupsByRoot fuel messages = some byRoot) (root : String) :
    byRoot.get root = some group ↔
      treeOf fuel messages root ≠ [] ∧ group = groupOf (treeOf fuel messages root) := by
  have htree : messages.filter (fun message =>
      (rootOf (parents messages) fuel message.messageId).getD "" = root) =
        treeOf fuel messages root := by
    refine List.filter_congr fun message hmem => ?_
    obtain ⟨other, hother⟩ := rootOf_isSome h (List.mem_map_of_mem hmem)
    simp [hother]
  rw [foldlM_addToRoot h, get_collect, htree, OrderedMap.get_empty]
  by_cases hempty : treeOf fuel messages root = []
  · simp [hempty]
  · rw [foldl_addMember hempty]
    simp [hempty, eq_comm]

lemma members_groupsByRoot (h : groupsByRoot fuel messages = some byRoot) :
    byRoot.values.flatMap (·.members) ~ messages := by
  have hadd : ∀ (group : Option Group) (message : ThreadMessage),
      (addMember group message).members ~ group.toList.flatMap (·.members) ++ [message] := by
    rintro (_ | group) message <;> simp [addMember, Group.push, emptyGroup]
  rw [foldlM_addToRoot h]
  simpa using values_collect_empty hadd

/-! ### The merged trees -/

def addGroup (existing : Option Group) (group : Group) : Group :=
  match existing with
  | none => group
  | some existing => { existing with members := existing.members ++ group.members }

lemma mergeGroups_eq : mergeGroups toLowerCase groups =
    ⟨collect (fun group => (mergeKeyOf toLowerCase group).getD "") addGroup .empty
      (groups.filter fun group => (mergeKeyOf toLowerCase group).isSome),
      groups.filter fun group => (mergeKeyOf toLowerCase group).isNone⟩ := by
  have hall : ∀ state : Merging, groups.foldl (mergeGroup toLowerCase) state =
      ⟨collect (fun group => (mergeKeyOf toLowerCase group).getD "") addGroup state.merged
        (groups.filter fun group => (mergeKeyOf toLowerCase group).isSome),
        state.solo ++ groups.filter fun group => (mergeKeyOf toLowerCase group).isNone⟩ := by
    induction groups with
    | nil => simp [collect]
    | cons group groups ih =>
      intro state
      rw [List.foldl_cons, ih]
      cases hkey : mergeKeyOf toLowerCase group with
      | none => simp [mergeGroup, hkey]
      | some key =>
        cases hget : state.merged.get key <;>
          simp [mergeGroup, hkey, hget, collect, put, addGroup]
  rw [mergeGroups, hall]
  simp

lemma get_merged : (mergeGroups toLowerCase groups).merged.get key =
    (groups.filter (mergeKeyOf toLowerCase · = some key)).foldl
      (fun existing group => some (addGroup existing group)) none := by
  have hfilter : (groups.filter fun group => (mergeKeyOf toLowerCase group).isSome).filter
      (fun group => (mergeKeyOf toLowerCase group).getD "" = key) =
        groups.filter (mergeKeyOf toLowerCase · = some key) := by
    rw [List.filter_filter]
    refine List.filter_congr fun group _ => ?_
    cases mergeKeyOf toLowerCase group <;> simp
  rw [mergeGroups_eq, get_collect, hfilter]
  rfl

lemma foldl_addGroup (existing : Group) (groups : List Group) :
    groups.foldl (fun existing group => some (addGroup existing group)) (some existing) =
      some { existing with members := existing.members ++ groups.flatMap (·.members) } := by
  induction groups generalizing existing with
  | nil => simp
  | cons group groups ih =>
    rw [List.foldl_cons, addGroup, ih]
    simp

/-- The trees with a key are merged. -/
lemma merged_of_mem (hmem : group ∈ groups) (hkey : mergeKeyOf toLowerCase group = some key) :
    ∃ merged, (mergeGroups toLowerCase groups).merged.get key = some merged := by
  have hne : group ∈ groups.filter (mergeKeyOf toLowerCase · = some key) := by simp [hmem, hkey]
  rw [get_merged]
  cases hl : groups.filter (mergeKeyOf toLowerCase · = some key) with
  | nil => simp [hl] at hne
  | cons first rest => exact ⟨_, foldl_addGroup first rest⟩

/-- A merged group has the members of all trees with its key. -/
lemma members_merged {merged : Group}
    (h : (mergeGroups toLowerCase groups).merged.get key = some merged) :
    merged.members =
      (groups.filter (mergeKeyOf toLowerCase · = some key)).flatMap (·.members) := by
  rw [get_merged] at h
  cases hl : groups.filter (mergeKeyOf toLowerCase · = some key) with
  | nil => simp [hl] at h
  | cons first rest =>
    rw [hl, List.foldl_cons, addGroup, foldl_addGroup] at h
    rw [← Option.some.inj h, List.flatMap_cons]

/-! ### The threads -/

lemma deriveThreads_eq (h : deriveThreads toLowerCase fuel messages = some threads) :
    ∃ byRoot, groupsByRoot fuel messages = some byRoot ∧
      threads = ((mergeGroups toLowerCase byRoot.values).merged.entries ++
        (mergeGroups toLowerCase byRoot.values).solo.map fun group => ("", group)).map
          threadOf := by
  obtain ⟨byRoot, hroots, hrest⟩ := Option.bind_eq_some_iff.mp h
  exact ⟨byRoot, hroots, (Option.some.inj hrest).symm⟩

/-- **Nothing is lost**: the ids in the threads are those of the messages. -/
theorem messageIds_deriveThreads (h : deriveThreads toLowerCase fuel messages = some threads) :
    threads.flatMap (·.messageIds) ~ knownIds messages := by
  obtain ⟨byRoot, hroots, rfl⟩ := deriveThreads_eq h
  have hadd : ∀ (existing : Option Group) (group : Group),
      (addGroup existing group).members ~ existing.toList.flatMap (·.members) ++ group.members := by
    rintro (_ | existing) group <;> simp [addGroup]
  have hids : ∀ entries : List (String × Group), (entries.map threadOf).flatMap (·.messageIds) =
      knownIds ((entries.map Prod.snd).flatMap (·.members)) := by
    intro entries
    simp [knownIds, List.flatMap_map, List.map_flatMap, threadOf]
  rw [hids, List.map_append, List.map_map, List.flatMap_append, mergeGroups_eq]
  refine Perm.map _ ?_
  calc _
    _ ~ (byRoot.values.filter fun group => (mergeKeyOf toLowerCase group).isSome).flatMap
          (·.members) ++ (byRoot.values.filter fun group =>
            (mergeKeyOf toLowerCase group).isNone).flatMap (·.members) := by
      refine Perm.append ?_ (by simp [Function.comp_def])
      exact values_collect_empty hadd
    _ ~ byRoot.values.flatMap (·.members) := by
      rw [← List.flatMap_append]
      refine Perm.flatMap_right _ ?_
      simpa using List.filter_append_perm (fun group => (mergeKeyOf toLowerCase group).isSome)
        byRoot.values
    _ ~ messages := members_groupsByRoot hroots

/-- What decides in which thread a tree is: its merge key, or else its root. -/
def markOf (toLowerCase : String → String) (fuel : ℕ) (messages : List ThreadMessage)
    (root : String) : String ⊕ String :=
  match mergeKeyOf toLowerCase (groupOf (treeOf fuel messages root)) with
  | some key => .inl key
  | none => .inr root

def SameThread (threads : List Thread) (id id' : String) : Prop :=
  ∃ thread ∈ threads, id ∈ thread.messageIds ∧ id' ∈ thread.messageIds

lemma mem_threads (hroots : groupsByRoot fuel messages = some byRoot)
    (h : deriveThreads toLowerCase fuel messages = some threads) : thread ∈ threads ↔
      (∃ key merged, (mergeGroups toLowerCase byRoot.values).merged.get key = some merged ∧
        thread = threadOf (key, merged)) ∨
      ∃ group ∈ byRoot.values, mergeKeyOf toLowerCase group = none ∧
        thread = threadOf ("", group) := by
  obtain ⟨byRoot', hroots', rfl⟩ := deriveThreads_eq h
  obtain rfl : byRoot' = byRoot := Option.some.inj (hroots'.symm.trans hroots)
  have hsolo : (mergeGroups toLowerCase byRoot'.values).solo =
      byRoot'.values.filter fun group => (mergeKeyOf toLowerCase group).isNone := by
    rw [mergeGroups_eq]
  simp only [List.mem_map, List.mem_append, hsolo, List.mem_filter, OrderedMap.get_eq_some]
  constructor
  · rintro ⟨⟨key, merged⟩, hmem | ⟨group, ⟨hmem, hkey⟩, heq⟩, rfl⟩
    · exact .inl ⟨key, merged, hmem, rfl⟩
    · exact .inr ⟨group, hmem, by simpa using hkey, by rw [← heq]⟩
  · rintro (⟨key, merged, hmem, rfl⟩ | ⟨group, hmem, hkey, rfl⟩)
    · exact ⟨(key, merged), .inl hmem, rfl⟩
    · exact ⟨("", group), .inr ⟨group, ⟨hmem, by simp [hkey]⟩, rfl⟩, rfl⟩

lemma mem_tree_iff {id : String} (hroot : rootOf (parents messages) fuel id = some root)
    (hmem : id ∈ knownIds messages) (root' : String) :
    id ∈ (groupOf (treeOf fuel messages root')).members.map (·.messageId) ↔ root = root' := by
  rw [groupOf_eq]
  constructor
  · intro hid
    obtain ⟨member, hmember, rfl⟩ := List.mem_map.mp hid
    have hroot' := (List.mem_filter.mp hmember).2
    rwa [hroot, decide_eq_true_eq, Option.some.injEq] at hroot'
  · rintro rfl
    obtain ⟨message, hmessage, rfl⟩ := List.mem_map.mp hmem
    exact List.mem_map_of_mem (List.mem_filter.mpr ⟨hmessage, by simp [hroot]⟩)

/-- The groups are the trees with a listed message. -/
lemma mem_values_groupsByRoot (hroots : groupsByRoot fuel messages = some byRoot) :
    group ∈ byRoot.values ↔
      ∃ root, treeOf fuel messages root ≠ [] ∧ group = groupOf (treeOf fuel messages root) := by
  rw [OrderedMap.mem_values]
  exact exists_congr (get_groupsByRoot hroots)

/-- The thread of a merge key has the messages of all trees with that mark. -/
lemma mem_merged_iff {merged : Group} {id : String}
    (hroots : groupsByRoot fuel messages = some byRoot)
    (hmerged : (mergeGroups toLowerCase byRoot.values).merged.get key = some merged)
    (hroot : rootOf (parents messages) fuel id = some root) (hmem : id ∈ knownIds messages) :
    id ∈ (threadOf (key, merged)).messageIds ↔
      markOf toLowerCase fuel messages root = .inl key := by
  have htree := mem_tree_iff hroot hmem
  rw [threadOf, members_merged hmerged, List.map_flatMap, List.mem_flatMap, markOf]
  constructor
  · rintro ⟨group, hgroup, hid⟩
    obtain ⟨hgroup, hkey⟩ := List.mem_filter.mp hgroup
    obtain ⟨root', -, rfl⟩ := (mem_values_groupsByRoot hroots).mp hgroup
    obtain rfl := (htree root').mp hid
    rw [decide_eq_true_eq.mp hkey]
  · intro hmark
    have hin := (htree root).mpr rfl
    refine ⟨groupOf (treeOf fuel messages root), List.mem_filter.mpr ⟨?_, ?_⟩, hin⟩
    · refine (mem_values_groupsByRoot hroots).mpr ⟨root, ?_, rfl⟩
      intro hempty
      simp [hempty, groupOf_eq] at hin
    · cases hkey : mergeKeyOf toLowerCase (groupOf (treeOf fuel messages root)) <;>
        simp_all

/-- **Two messages are in one thread** if and only if their trees have one mark. -/
theorem sameThread_iff {id id' : String}
    (h : deriveThreads toLowerCase fuel messages = some threads)
    (hmem : id ∈ knownIds messages) (hmem' : id' ∈ knownIds messages)
    (hroot : rootOf (parents messages) fuel id = some root)
    (hroot' : rootOf (parents messages) fuel id' = some root') : SameThread threads id id' ↔
      markOf toLowerCase fuel messages root = markOf toLowerCase fuel messages root' := by
  obtain ⟨byRoot, hroots, -⟩ := deriveThreads_eq h
  have hvalue : groupOf (treeOf fuel messages root) ∈ byRoot.values := by
    refine (mem_values_groupsByRoot hroots).mpr ⟨root, fun hempty => ?_, rfl⟩
    simpa [hempty, groupOf_eq] using (mem_tree_iff hroot hmem root).mpr rfl
  constructor
  · rintro ⟨thread, hthread, hleft, hright⟩
    rcases (mem_threads hroots h).mp hthread with ⟨key, merged, hmerged, rfl⟩ |
      ⟨group, hgroup, -, rfl⟩
    · rw [(mem_merged_iff hroots hmerged hroot hmem).mp hleft,
        (mem_merged_iff hroots hmerged hroot' hmem').mp hright]
    · -- a tree without a key is a thread of its own
      obtain ⟨root'', -, rfl⟩ := (mem_values_groupsByRoot hroots).mp hgroup
      rw [(mem_tree_iff hroot hmem root'').mp hleft, (mem_tree_iff hroot' hmem' root'').mp hright]
  · intro hmark
    cases hkey : mergeKeyOf toLowerCase (groupOf (treeOf fuel messages root)) with
    | none =>
      obtain rfl : root' = root := by
        simp only [markOf, hkey] at hmark
        cases hkey' : mergeKeyOf toLowerCase (groupOf (treeOf fuel messages root')) with
        | none => simpa [hkey'] using hmark.symm
        | some key => simp [hkey'] at hmark
      exact ⟨_, (mem_threads hroots h).mpr (.inr ⟨_, hvalue, hkey, rfl⟩),
        (mem_tree_iff hroot hmem root').mpr rfl, (mem_tree_iff hroot' hmem' root').mpr rfl⟩
    | some key =>
      obtain ⟨merged, hmerged⟩ := merged_of_mem hvalue hkey
      have hleft : markOf toLowerCase fuel messages root = .inl key := by rw [markOf, hkey]
      exact ⟨_, (mem_threads hroots h).mpr (.inl ⟨key, merged, hmerged, rfl⟩),
        (mem_merged_iff hroots hmerged hroot hmem).mpr hleft,
        (mem_merged_iff hroots hmerged hroot' hmem').mpr (hmark.symm.trans hleft)⟩

/-! ### The partition -/

/-- Every id is in exactly one thread and there exactly once, and nothing else is in a thread. -/
structure Partitions (threads : List Thread) (ids : List String) : Prop where
  once : ∀ id ∈ ids, (threads.flatMap (·.messageIds)).count id = 1
  listed : ∀ thread ∈ threads, ∀ id ∈ thread.messageIds, id ∈ ids

lemma isParent_of_parentIdOf (hids : (knownIds messages).Nodup) (hmem : message ∈ messages)
    {parentId : String} (h : parentIdOf message (knownIds messages) = some parentId) :
    IsParent messages message.messageId parentId := by
  obtain ⟨earlier, later, rfl⟩ := List.append_of_mem hmem
  refine ⟨earlier, message, later, rfl, rfl, h, fun other hother heq => ?_⟩
  exfalso
  have hlater : (knownIds (message :: later)).Nodup := by
    rw [knownIds, List.map_append] at hids
    exact (List.nodup_append.mp hids).2.1
  exact (List.nodup_cons.mp hlater).1 (List.mem_map.mpr ⟨other, hother, heq⟩)

lemma known_of_parentIdOf {known : List String} {parentId : String}
    (h : parentIdOf message known = some parentId) : parentId ∈ known := by
  rw [parentIdOf, Option.orElse_eq_some] at h
  rcases h with h | ⟨-, h⟩
  · simpa using (Option.filter_eq_some_iff.mp h).2
  · simpa using List.find?_some h

/-- **Threads partition the messages**, and a message is in the thread of its parent. They are
derived whenever no message stands above itself. -/
theorem deriveThreads_partitions (toLowerCase : String → String) (messages : List ThreadMessage)
    (hids : (knownIds messages).Nodup) (hacyclic : Acyclic messages) :
    (∃ fuel, (deriveThreads toLowerCase fuel messages).isSome) ∧
      ∀ fuel threads, deriveThreads toLowerCase fuel messages = some threads →
        Partitions threads (knownIds messages) ∧
        ∀ message ∈ messages, ∀ parentId,
          parentIdOf message (knownIds messages) = some parentId →
            SameThread threads message.messageId parentId := by
  refine ⟨⟨_, returns_of_acyclic hacyclic⟩, fun fuel threads h => ⟨⟨?_, ?_⟩, ?_⟩⟩
  · intro id hid
    rw [(messageIds_deriveThreads h).count_eq]
    exact List.count_eq_one_of_mem hids hid
  · intro thread hthread id hid
    exact (messageIds_deriveThreads h).subset (List.mem_flatMap.mpr ⟨thread, hthread, hid⟩)
  · intro message hmem parentId hparent
    obtain ⟨byRoot, hroots, -⟩ := deriveThreads_eq h
    have habove := known_of_parentIdOf hparent
    have hknown : message.messageId ∈ knownIds messages := List.mem_map_of_mem hmem
    obtain ⟨root, hroot⟩ := rootOf_isSome hroots hknown
    obtain ⟨root', hroot'⟩ := rootOf_isSome hroots habove
    rw [sameThread_iff h hknown habove hroot hroot']
    have hget := (get_parents _ _).mpr (isParent_of_parentIdOf hids hmem hparent)
    rw [Ancestry.top_above hget hroot hroot']

/-- A question without a subject. -/
def question : ThreadMessage where
  messageId := "<q@hub>"
  fromAddress := "ana@hub"
  toAddresses := ["scout@hub"]
  cc := none
  subject := none
  listId := none
  inReplyTo := none
  references := none

def answer : ThreadMessage where
  messageId := "<a@hub>"
  fromAddress := "scout@hub"
  toAddresses := ["ana@hub"]
  cc := none
  subject := none
  listId := none
  inReplyTo := some "<unknown@hub>"
  references := some ["<q@hub>", "<gone@hub>"]

theorem deriveThreads_partitions_answer : ∃ threads,
    deriveThreads String.toLower 3 [answer, question] = some threads ∧
      Partitions threads ["<a@hub>", "<q@hub>"] ∧ SameThread threads "<a@hub>" "<q@hub>" := by
  have hsome : (deriveThreads String.toLower 3 [answer, question]).isSome := by
    rw [isSome_deriveThreads]
    decide
  obtain ⟨threads, h⟩ := Option.isSome_iff_exists.mp hsome
  obtain ⟨hpartition, hparent⟩ := (deriveThreads_partitions String.toLower [answer, question]
    (by decide) (acyclic_of_returns hsome)).2 3 threads h
  exact ⟨threads, h, hpartition, hparent answer (by simp) "<q@hub>" (by decide)⟩

end Workbench.Web.Threads
