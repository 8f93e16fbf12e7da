import Workbench.Web.ThreadOrder

/-!
Messages of one mailing list.

A tree is merged under the first List-ID that a message of it carries. What other List-IDs its
messages carry is not looked at again, so a message can be in the thread of another list.
-/

namespace Workbench.Web.Threads

open List Workbench.Lib

variable {toLowerCase : String → String} {fuel : ℕ} {messages : List ThreadMessage}
  {threads : List Thread} {root root' listId : String}

/-- Any two messages with one List-ID are in one thread. -/
def ListsTogether (threads : List Thread) (messages : List ThreadMessage) : Prop :=
  ∀ message ∈ messages, ∀ message' ∈ messages, ∀ listId,
    message.listId = some listId → message'.listId = some listId →
      SameThread threads message.messageId message'.messageId

/-- A message of the tree carries the List-ID. -/
def Carries (messages : List ThreadMessage) (root listId : String) : Prop :=
  ∃ message ∈ treeOf (messages.length + 1) messages root, message.listId = some listId

/-- Any two trees in which one List-ID occurs have the same first List-ID. -/
def ListsAgree (messages : List ThreadMessage) : Prop :=
  ∀ root root' listId, Carries messages root listId → Carries messages root' listId →
    treeListId messages root = treeListId messages root'

/-- A tree in which a List-ID occurs is merged under its first one. -/
lemma markOf_of_carries (hacyclic : Acyclic messages)
    (h : deriveThreads toLowerCase fuel messages = some threads)
    (hcarries : Carries messages root listId) :
    ∃ first, treeListId messages root = some first ∧
      markOf toLowerCase fuel messages root = .inl ("list:" ++ first) := by
  obtain ⟨message, hmem, hlist⟩ := hcarries
  have hsome : (treeListId messages root).isSome := by
    rw [treeListId, List.findSome?_isSome_iff]
    exact ⟨message, hmem, by rw [hlist]; rfl⟩
  obtain ⟨first, hfirst⟩ := Option.isSome_iff_exists.mp hsome
  refine ⟨first, hfirst, ?_⟩
  rw [treeListId, ← treeOf_eq hacyclic h] at hfirst
  simp only [markOf, mergeKeyOf, groupOf_eq, hfirst]

lemma markOf_eq_iff (hacyclic : Acyclic messages)
    (h : deriveThreads toLowerCase fuel messages = some threads)
    (hcarries : Carries messages root listId) (hcarries' : Carries messages root' listId) :
    markOf toLowerCase fuel messages root = markOf toLowerCase fuel messages root' ↔
      treeListId messages root = treeListId messages root' := by
  obtain ⟨first, hfirst, hmark⟩ := markOf_of_carries hacyclic h hcarries
  obtain ⟨first', hfirst', hmark'⟩ := markOf_of_carries hacyclic h hcarries'
  rw [hfirst, hfirst', hmark, hmark', Sum.inl.injEq, String.append_right_inj, Option.some.injEq]

/-- The message is in the tree of the root that is found for it. -/
lemma mem_treeOf {message : ThreadMessage} (hacyclic : Acyclic messages)
    (h : deriveThreads toLowerCase fuel messages = some threads) (hmem : message ∈ messages)
    (hroot : rootOf (parents messages) fuel message.messageId = some root) :
    message ∈ treeOf (messages.length + 1) messages root := by
  rw [← treeOf_eq hacyclic h]
  exact List.mem_filter.mpr ⟨hmem, decide_eq_true hroot⟩

lemma listsTogether_iff (hacyclic : Acyclic messages)
    (h : deriveThreads toLowerCase fuel messages = some threads) :
    ListsTogether threads messages ↔ ListsAgree messages := by
  have hall := rootOf_isSome_of_derived h
  constructor
  · intro htogether root root' listId hcarries hcarries'
    rw [← markOf_eq_iff hacyclic h hcarries hcarries']
    obtain ⟨message, hmem, hlist⟩ := hcarries
    obtain ⟨message', hmem', hlist'⟩ := hcarries'
    rw [← treeOf_eq hacyclic h] at hmem hmem'
    obtain ⟨hmem, hroot⟩ := List.mem_filter.mp hmem
    obtain ⟨hmem', hroot'⟩ := List.mem_filter.mp hmem'
    exact (sameThread_iff h (List.mem_map_of_mem hmem) (List.mem_map_of_mem hmem')
      (of_decide_eq_true hroot) (of_decide_eq_true hroot')).mp
        (htogether message hmem message' hmem' listId hlist hlist')
  · intro hagree message hmem message' hmem' listId hlist hlist'
    have hknown : message.messageId ∈ knownIds messages := List.mem_map_of_mem hmem
    have hknown' : message'.messageId ∈ knownIds messages := List.mem_map_of_mem hmem'
    obtain ⟨root, hroot⟩ := Option.isSome_iff_exists.mp (hall _ hknown)
    obtain ⟨root', hroot'⟩ := Option.isSome_iff_exists.mp (hall _ hknown')
    have hcarries : Carries messages root listId :=
      ⟨message, mem_treeOf hacyclic h hmem hroot, hlist⟩
    have hcarries' : Carries messages root' listId :=
      ⟨message', mem_treeOf hacyclic h hmem' hroot', hlist'⟩
    rw [sameThread_iff h hknown hknown' hroot hroot', markOf_eq_iff hacyclic h hcarries hcarries']
    exact hagree root root' listId hcarries hcarries'

/-- **A shared List-ID wins** exactly when any two trees in which one List-ID occurs have the same
first List-ID. -/
theorem shared_listId_iff (toLowerCase : String → String) (messages : List ThreadMessage)
    (hacyclic : Acyclic messages) :
    (∃ fuel, (deriveThreads toLowerCase fuel messages).isSome) ∧
      ∀ fuel threads, deriveThreads toLowerCase fuel messages = some threads →
        (ListsTogether threads messages ↔ ListsAgree messages) :=
  ⟨⟨_, returns_of_acyclic hacyclic⟩, fun _ _ h => listsTogether_iff hacyclic h⟩

/-- Two posts of one list that do not answer each other. -/
theorem shared_listId_iff_posts :
    let post := listPost "<p@hub>" "plans" none
    let other := listPost "<o@hub>" "plans" none
    ∃ threads, deriveThreads String.toLower 3 [post, other] = some threads ∧
      (ListsTogether threads [post, other] ↔ ListsAgree [post, other]) := by
  intro post other
  have hacyclic : Acyclic [post, other] := @acyclic_of_returns String.toLower 3 _ (by decide)
  refine ⟨[⟨"list:plans", "<p@hub>", ["<p@hub>", "<o@hub>"]⟩], by decide, ?_⟩
  exact (shared_listId_iff String.toLower [post, other] hacyclic).2 3 _ (by decide)

/-- **An answer on another list** is not in the thread of that list. -/
theorem answer_on_other_list :
    let post := listPost "<p@hub>" "plans" none
    let reply := listPost "<r@hub>" "news" (some "<p@hub>")
    let other := listPost "<o@hub>" "news" none
    Acyclic [post, reply, other] ∧ ∃ threads,
      deriveThreads String.toLower 4 [post, reply, other] = some threads ∧
        ¬ ListsTogether threads [post, reply, other] := by
  intro post reply other
  refine ⟨@acyclic_of_returns String.toLower 4 _ (by decide),
    [⟨"list:plans", "<p@hub>", ["<p@hub>", "<r@hub>"]⟩, ⟨"list:news", "<o@hub>", ["<o@hub>"]⟩],
    by decide, ?_⟩
  intro htogether
  obtain ⟨thread, hthread, hin, hin'⟩ :=
    htogether reply (by simp) other (by simp) "news" rfl rfl
  simp only [List.mem_cons, List.not_mem_nil, or_false] at hthread
  rcases hthread with rfl | rfl
  · exact absurd hin' (by decide)
  · exact absurd hin (by decide)

end Workbench.Web.Threads
