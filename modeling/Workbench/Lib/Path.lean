import Workbench.Lib.Words

/-!
Absolute paths and the lexical `resolve` and `dirname` of `node:path`.

A path is the list of its segments from the root. `resolve` works on the text alone: it
drops empty and `.` segments, and `..` takes the last segment away.
-/

namespace Workbench.Lib

abbrev Path := List String

namespace Path

def segmentsOf (text : String) : List String := (text.toList.splitOn '/').map String.ofList

def descend (path : Path) (segment : String) : Path :=
  if segment = "" ∨ segment = "." then path
  else if segment = ".." then path.dropLast
  else path ++ [segment]

/-- `resolve(base, text)`; an absolute text starts again from the root. -/
def resolve (base : Path) (text : String) : Path :=
  (segmentsOf text).foldl descend (if text.toList.head? = some '/' then [] else base)

def dirname (path : Path) : Path := path.dropLast

/-- The text of a path. -/
def render (path : Path) : String := path.foldl (fun text segment => text ++ "/" ++ segment) ""

/-- The text of a path as `resolve` returns it. -/
def text (path : Path) : String := if path.length = 0 then "/" else render path

/-- A path as `resolve` returns it: no segment stands for another place. -/
def Resolved (path : Path) : Prop :=
  ∀ segment ∈ path, segment ≠ "" ∧ segment ≠ "." ∧ segment ≠ ".." ∧ '/' ∉ segment.toList

/-- A path at or below another, as a recursive removal of the latter takes it away. -/
def isUnder (path top : Path) : Bool := top.isPrefixOf path

lemma isUnder_iff {path top : Path} : isUnder path top ↔ top <+: path :=
  List.isPrefixOf_iff_prefix

lemma segmentsOf_eq_singleton {text : String} (h : '/' ∉ text.toList) :
    segmentsOf text = [text] := by
  rw [segmentsOf, List.splitOn_eq_singleton h, List.map_singleton, String.ofList_toList]

/-- A name without a slash resolves by one step. -/
lemma resolve_name {base : Path} {text : String} (h : '/' ∉ text.toList) :
    resolve base text = descend base text := by
  have hh : text.toList.head? ≠ some '/' := fun h' => h (List.mem_of_head? h')
  rw [resolve, if_neg hh, segmentsOf_eq_singleton h, List.foldl_cons, List.foldl_nil]

lemma descend_of_ne {base : Path} {name : String} (h1 : name ≠ "") (h2 : name ≠ ".")
    (h3 : name ≠ "..") : descend base name = base ++ [name] := by
  simp [descend, h1, h2, h3]

/-- Of the entries of one directory, a removal takes away the one it names. -/
lemma isUnder_sibling {base : Path} {a b : String} :
    isUnder (base ++ [a]) (base ++ [b]) ↔ a = b := by
  rw [isUnder_iff, List.prefix_append_right_inj]
  simp [List.cons_prefix_cons, eq_comm]

/-! ### Resolved paths and their texts -/

variable {path base : Path} {name : String}

lemma resolved_nil : Resolved [] := by
  simp [Resolved]

lemma not_mem_of_mem_splitOn {x : Char} {cs segment : List Char} (h : segment ∈ cs.splitOn x) :
    x ∉ segment := by
  rw [List.splitOn_eq_splitOnP] at h
  intro hx
  simpa using Words.of_mem_splitOnP h x hx

lemma slash_not_mem_of_mem_segmentsOf {segment text : String} (h : segment ∈ segmentsOf text) :
    '/' ∉ segment.toList := by
  obtain ⟨cs, hcs, rfl⟩ := List.mem_map.mp h
  rw [String.toList_ofList]
  exact not_mem_of_mem_splitOn hcs

lemma Resolved.descend (h : Resolved base) {segment : String} (hslash : '/' ∉ segment.toList) :
    Resolved (descend base segment) := by
  unfold Path.descend
  split_ifs with hhere hup
  · exact h
  · exact fun s hs => h s (List.dropLast_subset _ hs)
  · intro s hs
    rcases List.mem_append.mp hs with hs | hs
    · exact h s hs
    · obtain rfl := List.mem_singleton.mp hs
      obtain ⟨hempty, hdot⟩ := not_or.mp hhere
      exact ⟨hempty, hdot, hup, hslash⟩

lemma Resolved.foldl_descend {segments : List String} (h : Resolved base)
    (hslash : ∀ segment ∈ segments, '/' ∉ segment.toList) :
    Resolved (segments.foldl Path.descend base) := by
  induction segments generalizing base with
  | nil => exact h
  | cons segment segments ih =>
    obtain ⟨hfirst, hrest⟩ := List.forall_mem_cons.mp hslash
    exact ih (h.descend hfirst) hrest

lemma Resolved.resolve (h : Resolved base) (text : String) : Resolved (resolve base text) := by
  unfold Path.resolve
  split_ifs
  · exact resolved_nil.foldl_descend fun _ => slash_not_mem_of_mem_segmentsOf
  · exact h.foldl_descend fun _ => slash_not_mem_of_mem_segmentsOf

/-- A resolved path is gone down as it stands. -/
lemma foldl_descend_of_resolved (h : Resolved path) :
    path.foldl Path.descend base = base ++ path := by
  induction path generalizing base with
  | nil => simp
  | cons segment path ih =>
    obtain ⟨⟨hempty, hdot, hup, -⟩, hrest⟩ := List.forall_mem_cons.mp h
    rw [List.foldl_cons, descend_of_ne hempty hdot hup, ih hrest, List.append_assoc,
      List.singleton_append]

lemma toList_foldl_render (text : String) :
    (path.foldl (fun text segment => text ++ "/" ++ segment) text).toList =
      text.toList ++ path.flatMap fun segment => '/' :: segment.toList := by
  induction path generalizing text with
  | nil => simp
  | cons segment path ih => simp [ih]

lemma toList_render : (render path).toList = path.flatMap fun segment => '/' :: segment.toList := by
  rw [render, toList_foldl_render]
  rfl

/-- The pieces between the slashes of a resolved path's text. -/
lemma splitOn_render (h : Resolved path) (cs : List Char) :
    (cs ++ (render path).toList).splitOn '/' = cs.splitOn '/' ++ path.map String.toList := by
  rw [toList_render]
  induction path generalizing cs with
  | nil => simp
  | cons segment path ih =>
    obtain ⟨⟨-, -, -, hslash⟩, hrest⟩ := List.forall_mem_cons.mp h
    rw [List.flatMap_cons, List.cons_append, List.splitOn_append_cons_self, ih hrest,
      List.splitOn_eq_singleton hslash, List.map_cons, List.singleton_append]

/-- **A path is read back from its text.** -/
theorem resolve_text (h : Resolved path) : resolve base (text path) = path := by
  unfold text
  split_ifs with hlength
  · obtain rfl := List.eq_nil_of_length_eq_zero hlength
    rfl
  · obtain ⟨segment, rest, rfl⟩ := List.exists_cons_of_length_pos (Nat.pos_of_ne_zero hlength)
    have hhead : (render (segment :: rest)).toList.head? = some '/' := by
      rw [toList_render]
      rfl
    have hsplit := splitOn_render h []
    rw [List.nil_append, List.splitOn_nil] at hsplit
    have hofList : (String.ofList ∘ String.toList) = id := funext fun s => String.ofList_toList
    rw [resolve, if_pos hhead, segmentsOf, hsplit, List.map_append, List.map_map, hofList,
      List.map_id, List.map_singleton, List.foldl_append]
    exact foldl_descend_of_resolved h

lemma text_of_ne_nil (h : path ≠ []) : text path = render path :=
  if_neg fun hlength => h (List.eq_nil_of_length_eq_zero hlength)

/-- The pieces of a text, but for the one before its first slash. -/
lemma splitOn_text (h : Resolved path) (hne : path ≠ []) :
    (text path).toList.splitOn '/' = [] :: path.map String.toList := by
  have hsplit := splitOn_render h []
  rwa [List.nil_append, List.splitOn_nil, ← text_of_ne_nil hne] at hsplit

/-- **A text that goes on behind another and a slash** names a path below the other's. -/
theorem below_of_text {top : Path} (htop : Resolved top) (hpath : Resolved path)
    (h : (text top).toList ++ ['/'] <+: (text path).toList) : top <+: path ∧ top ≠ path := by
  obtain ⟨rest, hrest⟩ := h
  rw [List.append_assoc, List.singleton_append] at hrest
  have hne : path ≠ [] := by
    rintro rfl
    have hlength := congrArg List.length hrest
    have hpos : 1 ≤ (text top).toList.length := by
      unfold text
      split_ifs with h0
      · decide
      · obtain ⟨segment, path, rfl⟩ := List.exists_cons_of_length_pos (Nat.pos_of_ne_zero h0)
        simp [toList_render]
    have hroot : (text []).toList.length = 1 := rfl
    rw [List.length_append, List.length_cons, hroot] at hlength
    omega
  have hsplit := splitOn_text hpath hne
  rw [← hrest, List.splitOn_append_cons_self] at hsplit
  by_cases htopne : top = []
  · -- below the root stands no second slash
    subst htopne
    have hroot : (text []).toList.splitOn '/' = [[], []] := rfl
    rw [hroot, List.cons_append, List.cons_append, List.nil_append] at hsplit
    obtain ⟨segment, path, rfl⟩ := List.exists_cons_of_ne_nil hne
    exact ⟨List.nil_prefix, hne.symm⟩
  · rw [splitOn_text htop htopne, List.cons_append] at hsplit
    have hmap := congrArg (List.map String.ofList) (List.cons.inj hsplit).2
    have hofList : (String.ofList ∘ String.toList) = id := funext fun s => String.ofList_toList
    rw [List.map_append, List.map_map, List.map_map, hofList, List.map_id, List.map_id] at hmap
    refine ⟨⟨_, hmap⟩, fun heq => ?_⟩
    rw [heq, List.append_right_eq_self, List.map_eq_nil_iff] at hmap
    exact List.splitOn_ne_nil '/' rest hmap

end Path

end Workbench.Lib
