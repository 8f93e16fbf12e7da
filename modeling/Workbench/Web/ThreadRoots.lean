import Workbench.Web.ThreadOrder

/-!
The root of a thread.

A thread calls the first of its messages its root. The messages of a tree keep the order in which
they are listed, and merged trees stand in the order in which they are first met, so it is the first
listed message of the thread: an answer, if that is listed before the message it answers.
-/

namespace Workbench.Web.Threads

open List Workbench.Lib

variable {toLowerCase : String → String} {fuel : ℕ} {messages : List ThreadMessage}
  {threads : List Thread} {thread : Thread} {byRoot : OrderedMap String Group} {root id : String}

/-- The root of a thread is one of its messages, and has no listed parent. -/
def HasRoot (messages : List ThreadMessage) (thread : Thread) : Prop :=
  thread.rootMessageId ∈ thread.messageIds ∧
    ∀ message ∈ messages, message.messageId = thread.rootMessageId →
      parentIdOf message (knownIds messages) = none

/-- The mark of the tree that an id is in. -/
def markAt (toLowerCase : String → String) (messages : List ThreadMessage) (id : String) :
    Option (String ⊕ String) :=
  (rootOf (parents messages) (messages.length + 1) id).map
    (markOf toLowerCase (messages.length + 1) messages)

/-- A message with a listed parent comes behind some message of its tree, or of a tree that is
merged with it. -/
def RootsFirst (toLowerCase : String → String) (messages : List ThreadMessage) : Prop :=
  ∀ earlier message later, messages = earlier ++ message :: later →
    parentIdOf message (knownIds messages) ≠ none →
      ∃ other ∈ earlier, markAt toLowerCase messages other.messageId =
        markAt toLowerCase messages message.messageId

/-- The first listed message of a thread is its root. -/
structure StartsWith (messages : List ThreadMessage) (thread : Thread)
    (earlier : List ThreadMessage) (first : ThreadMessage) (later : List ThreadMessage) : Prop where
  split : messages = earlier ++ first :: later
  root : thread.rootMessageId = first.messageId
  mem : first.messageId ∈ thread.messageIds
  before : ∀ message ∈ earlier, message.messageId ∉ thread.messageIds

/-! ### The first tree of a thread -/

/-- The root under which a message is grouped. -/
def rootKey (fuel : ℕ) (messages : List ThreadMessage) (message : ThreadMessage) : String :=
  (rootOf (parents messages) fuel message.messageId).getD ""

lemma values_eq (hroots : groupsByRoot fuel messages = some byRoot) :
    byRoot.values = byRoot.keys.map fun root => groupOf (treeOf fuel messages root) := by
  rw [OrderedMap.values, OrderedMap.keys, List.map_map]
  refine List.map_congr_left ?_
  rintro ⟨root, group⟩ hmem
  exact ((get_groupsByRoot hroots root).mp (OrderedMap.get_eq_some.2 hmem)).2

/-- A search through the trees finds the tree of the first message whose tree is searched for. -/
lemma find?_values (hroots : groupsByRoot fuel messages = some byRoot) (q : Group → Bool) :
    byRoot.values.find? q =
      (messages.find? fun message =>
        q (groupOf (treeOf fuel messages (rootKey fuel messages message)))).map fun message =>
          groupOf (treeOf fuel messages (rootKey fuel messages message)) := by
  have hkeys : byRoot.keys.find? (fun root => q (groupOf (treeOf fuel messages root))) =
      (messages.map (rootKey fuel messages)).find? fun root =>
        q (groupOf (treeOf fuel messages root)) := by
    rw [foldlM_addToRoot hroots]
    exact Grouping.find?_keys_collect _
  rw [values_eq hroots, List.find?_map]
  simp only [Function.comp_def]
  rw [hkeys, List.find?_map, Option.map_map]
  rfl

/-- A tree begins with its first listed message. -/
lemma head?_treeOf : (treeOf fuel messages root).head? =
    messages.find? fun message => rootOf (parents messages) fuel message.messageId = some root := by
  rw [treeOf, List.head?_filter]

/-- The thread of a tree without a merge key starts with the first message of the tree. -/
lemma startsWith_solo (hne : treeOf fuel messages root ≠ []) :
    ∃ earlier first later, StartsWith messages
      (threadOf ("", groupOf (treeOf fuel messages root))) earlier first later := by
  obtain ⟨first, rest, htree⟩ := List.exists_cons_of_ne_nil hne
  have hhead : (treeOf fuel messages root).head? = _ := head?_treeOf
  rw [htree, List.head?_cons, eq_comm, List.find?_eq_some_iff_append] at hhead
  obtain ⟨-, earlier, later, hsplit, hbefore⟩ := hhead
  refine ⟨earlier, first, later, hsplit, ?_, ?_, ?_⟩
  · simp [threadOf, groupOf_eq, htree]
  · simp [threadOf, groupOf_eq, htree]
  · intro message hmem hin
    obtain ⟨other, hother, hid⟩ := List.mem_map.mp hin
    rw [groupOf_eq] at hother
    have hroot := (List.mem_filter.mp hother).2
    have hno := hbefore message hmem
    simp [hid] at hroot
    simp [hroot] at hno

lemma markOf_eq_inl {key : String} : markOf toLowerCase fuel messages root = .inl key ↔
    mergeKeyOf toLowerCase (groupOf (treeOf fuel messages root)) = some key := by
  unfold markOf
  cases mergeKeyOf toLowerCase (groupOf (treeOf fuel messages root)) <;> simp

/-- The thread of a merge key starts with the first message of its first tree. -/
lemma startsWith_merged {key : String} {merged : Group}
    (hroots : groupsByRoot fuel messages = some byRoot)
    (hmerged : (mergeGroups toLowerCase byRoot.values).merged.get key = some merged) :
    ∃ earlier first later, StartsWith messages (threadOf (key, merged)) earlier first later := by
  -- the first tree with the key is that of the first message whose tree has the key
  have hfind := find?_values hroots fun group => decide (mergeKeyOf toLowerCase group = some key)
  have hmembers := members_merged hmerged
  have hgroups := hmerged
  rw [get_merged] at hgroups
  cases hl : byRoot.values.filter (mergeKeyOf toLowerCase · = some key) with
  | nil => simp [hl] at hgroups
  | cons group groups =>
    rw [← List.head?_filter, hl, List.head?_cons, eq_comm, Option.map_eq_some_iff] at hfind
    obtain ⟨first, hfirst, rfl⟩ := hfind
    obtain ⟨hkey, earlier, later, hsplit, hbefore⟩ := List.find?_eq_some_iff_append.mp hfirst
    have hfirstMem : first ∈ messages := by simp [hsplit]
    have hroot : ∀ message ∈ messages, rootOf (parents messages) fuel message.messageId =
        some (rootKey fuel messages message) := by
      intro message hmem
      obtain ⟨root, hroot⟩ := rootOf_isSome hroots (List.mem_map_of_mem hmem)
      rw [rootKey, hroot, Option.getD_some]
    have hhead : (treeOf fuel messages (rootKey fuel messages first)).head? = some first := by
      rw [head?_treeOf, List.find?_eq_some_iff_append]
      refine ⟨decide_eq_true (hroot first hfirstMem), earlier, later, hsplit, ?_⟩
      intro message hmem
      have hno := hbefore message hmem
      rw [Bool.not_eq_true', decide_eq_false_iff_not] at hno ⊢
      intro hsame
      rw [hroot message (by simp [hsplit, hmem]), Option.some.injEq] at hsame
      exact hno (by rw [hsame]; exact of_decide_eq_true hkey)
    obtain ⟨rest, htree⟩ := List.head?_eq_some_iff.mp hhead
    rw [hl, List.flatMap_cons, groupOf_eq, htree, List.cons_append] at hmembers
    refine ⟨earlier, first, later, hsplit, ?_, ?_, ?_⟩
    · simp [threadOf, hmembers]
    · simp [threadOf, hmembers]
    · intro message hmem hin
      have hlisted : message ∈ messages := by simp [hsplit, hmem]
      have hmark := (mem_merged_iff hroots hmerged (hroot message hlisted)
        (List.mem_map_of_mem hlisted)).mp hin
      exact absurd (markOf_eq_inl.1 hmark) (by simpa using hbefore message hmem)

/-- **The root of a thread** is its first listed message. -/
lemma startsWith_of_mem (h : deriveThreads toLowerCase fuel messages = some threads)
    (hthread : thread ∈ threads) :
    ∃ earlier first later, StartsWith messages thread earlier first later := by
  obtain ⟨byRoot, hroots, -⟩ := deriveThreads_eq h
  rcases (mem_threads hroots h).mp hthread with ⟨key, merged, hmerged, rfl⟩ |
    ⟨group, hgroup, -, rfl⟩
  · exact startsWith_merged hroots hmerged
  · obtain ⟨root, hne, rfl⟩ := (mem_values_groupsByRoot hroots).mp hgroup
    exact startsWith_solo hne

/-! ### When the root is a root -/

lemma markAt_eq (hacyclic : Acyclic messages)
    (h : deriveThreads toLowerCase fuel messages = some threads) (hid : id ∈ knownIds messages) :
    ∃ root, rootOf (parents messages) fuel id = some root ∧
      markAt toLowerCase messages id = some (markOf toLowerCase fuel messages root) := by
  obtain ⟨threads', h'⟩ :=
    Option.isSome_iff_exists.mp (@returns_of_acyclic toLowerCase messages hacyclic)
  obtain ⟨root, hroot⟩ := Option.isSome_iff_exists.mp (rootOf_isSome_of_derived h id hid)
  obtain ⟨root', hroot'⟩ := Option.isSome_iff_exists.mp (rootOf_isSome_of_derived h' id hid)
  obtain rfl : root = root' := Ancestry.top_unique hroot hroot'
  refine ⟨root, hroot, ?_⟩
  rw [markAt, hroot', Option.map_some, markOf, markOf, treeOf_eq hacyclic h]

lemma sameThread_iff_markAt {id' : String} (hacyclic : Acyclic messages)
    (h : deriveThreads toLowerCase fuel messages = some threads)
    (hid : id ∈ knownIds messages) (hid' : id' ∈ knownIds messages) :
    SameThread threads id id' ↔
      markAt toLowerCase messages id = markAt toLowerCase messages id' := by
  obtain ⟨root, hroot, hmark⟩ := markAt_eq hacyclic h hid
  obtain ⟨root', hroot', hmark'⟩ := markAt_eq hacyclic h hid'
  rw [sameThread_iff h hid hid' hroot hroot', hmark, hmark', Option.some.injEq]

lemma exists_thread (h : deriveThreads toLowerCase fuel messages = some threads)
    (hid : id ∈ knownIds messages) : ∃ thread ∈ threads, id ∈ thread.messageIds :=
  List.mem_flatMap.mp ((messageIds_deriveThreads h).mem_iff.mpr hid)

lemma hasRoot_iff (hids : (knownIds messages).Nodup) (hacyclic : Acyclic messages)
    (h : deriveThreads toLowerCase fuel messages = some threads) :
    (∀ thread ∈ threads, HasRoot messages thread) ↔ RootsFirst toLowerCase messages := by
  constructor
  · intro hall earlier message later hsplit hparent
    have hmem : message ∈ messages := by simp [hsplit]
    obtain ⟨thread, hthread, hin⟩ := exists_thread h (List.mem_map_of_mem hmem)
    obtain ⟨earlier', first, later', hstart⟩ := startsWith_of_mem h hthread
    have hfirst : first ∈ messages := by simp [hstart.split]
    have hbefore : first ∈ earlier := by
      rcases List.append_eq_append_iff.mp (hsplit.symm.trans hstart.split) with
        ⟨between, hearlier, hrest⟩ | ⟨between, hearlier, hrest⟩
      · cases between with
        | nil =>
          obtain rfl := (List.cons.inj hrest).1
          exact absurd ((hall thread hthread).2 message hmem hstart.root.symm) hparent
        | cons _ between =>
          obtain rfl := (List.cons.inj hrest).1
          exact absurd hin (hstart.before message (by simp [hearlier]))
      · cases between with
        | nil =>
          obtain rfl := (List.cons.inj hrest).1
          exact absurd ((hall thread hthread).2 first hfirst hstart.root.symm) hparent
        | cons _ between =>
          obtain rfl := (List.cons.inj hrest).1
          simp [hearlier]
    refine ⟨first, hbefore, ?_⟩
    exact (sameThread_iff_markAt hacyclic h (List.mem_map_of_mem hfirst)
      (List.mem_map_of_mem hmem)).mp ⟨thread, hthread, hstart.mem, hin⟩
  · intro hcond thread hthread
    obtain ⟨earlier, first, later, hstart⟩ := startsWith_of_mem h hthread
    have hfirst : first ∈ messages := by simp [hstart.split]
    refine ⟨hstart.root ▸ hstart.mem, fun message hmem hid => ?_⟩
    obtain rfl : message = first := List.inj_on_of_nodup_map hids hmem hfirst
      (hid.trans hstart.root)
    by_contra hparent
    obtain ⟨other, hother, hmark⟩ := hcond earlier message later hstart.split hparent
    have hlisted : other ∈ messages := by simp [hstart.split, hother]
    obtain ⟨thread', hthread', hin, hin'⟩ := (sameThread_iff_markAt hacyclic h
      (List.mem_map_of_mem hlisted) (List.mem_map_of_mem hmem)).mpr hmark
    obtain rfl := thread_unique hids h hthread hthread' hstart.mem hin'
    exact hstart.before other hother hin

/-- **The root of every thread** has no listed parent exactly when every message that has one comes
behind some message of its tree, or of a tree that is merged with it. -/
theorem rootMessageId_iff (toLowerCase : String → String) (messages : List ThreadMessage)
    (hids : (knownIds messages).Nodup) (hacyclic : Acyclic messages) :
    (∃ fuel, (deriveThreads toLowerCase fuel messages).isSome) ∧
      ∀ fuel threads, deriveThreads toLowerCase fuel messages = some threads →
        ((∀ thread ∈ threads, HasRoot messages thread) ↔ RootsFirst toLowerCase messages) :=
  ⟨⟨_, returns_of_acyclic hacyclic⟩, fun _ _ h => hasRoot_iff hids hacyclic h⟩

theorem rootMessageId_iff_question : ∃ threads,
    deriveThreads String.toLower 3 [question, answer] = some threads ∧
      ∀ thread ∈ threads, HasRoot [question, answer] thread := by
  have hsome : (deriveThreads String.toLower 3 [question, answer]).isSome := by
    rw [isSome_deriveThreads]
    decide
  obtain ⟨threads, h⟩ := Option.isSome_iff_exists.mp hsome
  refine ⟨threads, h, ((rootMessageId_iff String.toLower [question, answer] (by decide)
    (acyclic_of_returns hsome)).2 3 threads h).mpr ?_⟩
  intro earlier message later hsplit hparent
  rcases earlier with _ | ⟨first, earlier⟩
  · obtain ⟨rfl, -⟩ := List.cons.inj hsplit
    exact absurd (by decide) hparent
  · obtain ⟨rfl, hrest⟩ := List.cons.inj hsplit
    have hmessage : message ∈ [answer] := by rw [hrest]; simp
    obtain rfl := List.mem_singleton.mp hmessage
    exact ⟨question, by simp, by decide⟩

/-- **An answer that is listed first** is called the root. -/
theorem answer_first_is_root :
    (knownIds [answer, question]).Nodup ∧ Acyclic [answer, question] ∧
      deriveThreads String.toLower 3 [answer, question] =
        some [⟨"message:<a@hub>", "<a@hub>", ["<a@hub>", "<q@hub>"]⟩] ∧
      ¬ HasRoot [answer, question] ⟨"message:<a@hub>", "<a@hub>", ["<a@hub>", "<q@hub>"]⟩ := by
  refine ⟨by decide, @acyclic_of_returns String.toLower 3 _ (by decide), by decide, ?_⟩
  rintro ⟨-, hroot⟩
  exact absurd (hroot answer (by simp) rfl) (by decide)

end Workbench.Web.Threads
