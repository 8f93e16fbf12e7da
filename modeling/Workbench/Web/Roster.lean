import Mathlib.Data.List.Infix
import Mathlib.Tactic.Lemma

/-!
The roster below a message.

It stands behind a blank line and its heading. To take it off again the code looks for the last
place where a blank line and the heading stand, and leaves out what is there and behind it. A body
may have a roster of its own, which is then further up; and none of the lines that are appended is
blank but one, which has no heading behind it.
-/

namespace Workbench.Web.Roster

inductive Kind where
  | person
  | agent
  deriving DecidableEq

structure RosterEntry where
  name : String
  address : String
  kind : Kind

def rosterHeading : String := "Participants:"

def entryLine (entry : RosterEntry) : String := entry.name ++ " <" ++ entry.address ++ ">"

def rosterBlock (entries : List RosterEntry) : String :=
  "\n".intercalate (rosterHeading :: entries.map entryLine)

def people (entries : List RosterEntry) : List RosterEntry := entries.filter (·.kind = .person)

def quotedPeople (entries : List RosterEntry) : String :=
  ", ".intercalate ((people entries).map fun entry => "\"" ++ entry.address ++ "\"")

def ccInstruction (entries : List RosterEntry) : Option String :=
  if (people entries).length = 0 then none
  else some ("When you mail another participant, pass `to` as a list with them and the person, " ++
    "e.g. `to: [\"<their address>\", " ++ quotedPeople entries ++
    "]`, never one comma-joined string, and give every mail a short subject.")

def appendRoster (body : String) (entries : List RosterEntry) : String :=
  if entries.length = 0 then body
  else "\n".intercalate ([body, "", rosterBlock entries] ++
    match ccInstruction entries with
    | some instruction => ["", instruction]
    | none => [])

/-- `lastIndexOf`; nothing is `-1`. -/
def lastIndexOf (marker : List Char) : List Char → Option ℕ
  | [] => if marker.isPrefixOf [] then some 0 else none
  | c :: cs =>
    match lastIndexOf marker cs with
    | some index => some (index + 1)
    | none => if marker.isPrefixOf (c :: cs) then some 0 else none

def rosterMarker : String := "\n\n" ++ rosterHeading ++ "\n"

def stripRoster (body : String) : String :=
  match lastIndexOf rosterMarker.toList body.toList with
  | none => body
  | some index => String.ofList (body.toList.take index)

variable {body : String} {entries : List RosterEntry} {marker text before rest line : List Char}
  {lines : List (List Char)} {c : Char}

/-! ### The last place of a text -/

lemma lastIndexOf_eq_none (h : ¬ marker <:+: text) : lastIndexOf marker text = none := by
  induction text with
  | nil =>
    have hbegins : ¬ marker <+: [] := fun hpre => h hpre.isInfix
    rw [lastIndexOf, if_neg (by rwa [List.isPrefixOf_iff_prefix])]
  | cons c cs ih =>
    rw [List.infix_cons_iff, not_or] at h
    rw [lastIndexOf, ih h.2]
    exact if_neg (by rw [List.isPrefixOf_iff_prefix]; exact h.1)

/-- A text is found where it stands, if it does not begin again behind there. -/
lemma lastIndexOf_append (hhere : marker <+: c :: rest) (hno : ¬ marker <:+: rest) :
    lastIndexOf marker (before ++ c :: rest) = some before.length := by
  induction before with
  | nil =>
    rw [List.nil_append, lastIndexOf, lastIndexOf_eq_none hno]
    exact if_pos (List.isPrefixOf_iff_prefix.mpr hhere)
  | cons b before ih => rw [List.cons_append, lastIndexOf, ih, List.length_cons]

/-! ### Blank lines -/

/-- A blank line, and the first letter of the heading behind it. -/
def blankAndP : List Char := ['\n', '\n', 'P']

lemma not_infix_line (hline : '\n' ∉ line) (hrest : ¬ blankAndP <:+: rest) :
    ¬ blankAndP <:+: line ++ rest := by
  induction line with
  | nil => exact hrest
  | cons c line ih =>
    rw [List.mem_cons, not_or] at hline
    rw [List.cons_append, List.infix_cons_iff, not_or]
    exact ⟨fun hbegins => hline.1 (List.cons_prefix_cons.mp hbegins).1, ih hline.2⟩

lemma not_infix_break (hne : line ≠ []) (hline : '\n' ∉ line) (hrest : ¬ blankAndP <:+: rest) :
    ¬ blankAndP <:+: '\n' :: (line ++ rest) := by
  rw [List.infix_cons_iff, not_or]
  refine ⟨fun hbegins => ?_, not_infix_line hline hrest⟩
  obtain ⟨c, line, rfl⟩ := List.exists_cons_of_ne_nil hne
  have hsecond := (List.cons_prefix_cons.mp hbegins).2
  rw [List.cons_append] at hsecond
  exact hline (List.mem_cons.mpr (.inl (List.cons_prefix_cons.mp hsecond).1))

/-- Lines that are not blank have no blank line between them. -/
lemma not_infix_lines (hlines : ∀ line ∈ lines, line ≠ [] ∧ '\n' ∉ line)
    (hrest : ¬ blankAndP <:+: rest) :
    ¬ blankAndP <:+: lines.flatMap (fun line => '\n' :: line) ++ rest := by
  induction lines with
  | nil => exact hrest
  | cons line lines ih =>
    obtain ⟨⟨hne, hline⟩, hlines⟩ := List.forall_mem_cons.mp hlines
    rw [List.flatMap_cons, List.append_assoc, List.cons_append]
    exact not_infix_break hne hline (ih hlines)

/-! ### What is appended -/

lemma intercalate_newline (first : List Char) (lines : List (List Char)) :
    ['\n'].intercalate (first :: lines) = first ++ lines.flatMap fun line => '\n' :: line := by
  induction lines generalizing first with
  | nil => simp
  | cons line lines ih =>
    rw [List.intercalate_cons_cons, ih, List.flatMap_cons]
    simp

/-- The instruction behind its blank line, or nothing. -/
def ending (entries : List RosterEntry) : List Char :=
  match ccInstruction entries with
  | some instruction => '\n' :: '\n' :: instruction.toList
  | none => []

/-- The lines below the body, from the blank line on. -/
lemma toList_appendRoster (hne : entries ≠ []) : (appendRoster body entries).toList =
    body.toList ++ '\n' :: (('\n' :: rosterHeading.toList) ++
      ((entries.map fun entry => (entryLine entry).toList).flatMap (fun line => '\n' :: line) ++
        ending entries)) := by
  have hnewline : "\n".toList = ['\n'] := rfl
  have hblock : (rosterBlock entries).toList = rosterHeading.toList ++
      (entries.map fun entry => (entryLine entry).toList).flatMap fun line => '\n' :: line := by
    rw [rosterBlock, String.toList_intercalate, hnewline, List.map_cons, intercalate_newline,
      List.map_map]
    rfl
  rw [appendRoster, if_neg (fun h => hne (List.length_eq_zero_iff.mp h)),
    String.toList_intercalate, hnewline, List.cons_append, List.map_cons, intercalate_newline,
    ending]
  cases ccInstruction entries <;> simp [hblock]

lemma not_mem_intercalate {separator : String} {texts : List String}
    (hseparator : c ∉ separator.toList) (htexts : ∀ text ∈ texts, c ∉ text.toList) :
    c ∉ (separator.intercalate texts).toList := by
  induction texts with
  | nil => simp
  | cons text texts ih =>
    obtain ⟨htext, htexts⟩ := List.forall_mem_cons.mp htexts
    by_cases hne : texts = []
    · rwa [hne, String.intercalate_singleton]
    · rw [String.intercalate_cons_of_ne_nil hne, String.toList_append, String.toList_append]
      simp only [List.mem_append, not_or]
      exact ⟨⟨htext, hseparator⟩, ih htexts⟩

/-- The names and addresses of a roster have no line break in them. -/
def OnOneLine (entries : List RosterEntry) : Prop :=
  ∀ entry ∈ entries, '\n' ∉ entry.name.toList ∧ '\n' ∉ entry.address.toList

lemma entryLine_spec (h : OnOneLine entries) {entry : RosterEntry} (hmem : entry ∈ entries) :
    (entryLine entry).toList ≠ [] ∧ '\n' ∉ (entryLine entry).toList := by
  obtain ⟨hname, haddress⟩ := h entry hmem
  constructor
  · simp [entryLine]
  · simp [entryLine, hname, haddress]

lemma not_mem_quotedPeople (h : OnOneLine entries) : '\n' ∉ (quotedPeople entries).toList := by
  refine not_mem_intercalate (by decide) fun text htext => ?_
  obtain ⟨entry, hmem, rfl⟩ := List.mem_map.mp htext
  have haddress := (h entry (List.mem_filter.mp hmem).1).2
  simp [haddress]

/-- A literal is read by its characters, not by the bytes that they are kept in. -/
lemma not_mem_literal {chars : List Char} (h : c ∉ chars) : c ∉ (String.ofList chars).toList := by
  rwa [String.toList_ofList]

/-- The instruction is one line, and does not begin like the heading. -/
lemma ccInstruction_spec (h : OnOneLine entries) {instruction : String}
    (hsome : ccInstruction entries = some instruction) :
    '\n' ∉ instruction.toList ∧ ∃ rest, instruction.toList = 'W' :: rest := by
  have hquoted := not_mem_quotedPeople h
  unfold ccInstruction at hsome
  split at hsome
  · cases hsome
  · obtain rfl := Option.some.inj hsome
    simp only [String.toList_append, List.mem_append, not_or]
    refine ⟨⟨⟨⟨not_mem_literal (by decide), not_mem_literal (by decide)⟩, hquoted⟩,
      not_mem_literal (by decide)⟩, ?_⟩
    rw [@String.toList_ofList ('W' :: _)]
    exact ⟨_, rfl⟩

lemma not_infix_ending (h : OnOneLine entries) : ¬ blankAndP <:+: ending entries := by
  unfold ending
  split
  · next instruction hsome =>
    obtain ⟨hline, rest, hfirst⟩ := ccInstruction_spec h hsome
    have hbreak : ¬ blankAndP <:+: '\n' :: (instruction.toList ++ []) :=
      not_infix_break (by simp [hfirst]) hline (by simp [blankAndP])
    rw [List.append_nil] at hbreak
    rw [List.infix_cons_iff, not_or]
    refine ⟨fun hbegins => ?_, hbreak⟩
    simp [blankAndP, hfirst] at hbegins
  · simp [blankAndP]

/-- **A roster is taken off again**, whatever the body, if none of its names and addresses has a
line break in it. -/
theorem stripRoster_appendRoster (body : String) (entries : List RosterEntry)
    (hne : entries ≠ []) (hlines : OnOneLine entries) :
    stripRoster (appendRoster body entries) = body := by
  have htext := @toList_appendRoster body entries hne
  have hno : ¬ blankAndP <:+: ('\n' :: rosterHeading.toList) ++
      ((entries.map fun entry => (entryLine entry).toList).flatMap (fun line => '\n' :: line) ++
        ending entries) := by
    refine not_infix_break (by decide) (by decide) (not_infix_lines ?_ (not_infix_ending hlines))
    intro line hline
    obtain ⟨entry, hmem, rfl⟩ := List.mem_map.mp hline
    exact entryLine_spec hlines hmem
  -- the heading ends with a line break, since there is an entry behind it
  have hhere : rosterMarker.toList <+: '\n' :: (('\n' :: rosterHeading.toList) ++
      ((entries.map fun entry => (entryLine entry).toList).flatMap (fun line => '\n' :: line) ++
        ending entries)) := by
    obtain ⟨entry, more, rfl⟩ := List.exists_cons_of_ne_nil hne
    simp only [List.map_cons, List.flatMap_cons, rosterMarker]
    exact ⟨_, rfl⟩
  have hmarker : blankAndP <:+: rosterMarker.toList := ⟨[], _, rfl⟩
  rw [stripRoster, htext, lastIndexOf_append hhere fun hinfix => hno (hmarker.trans hinfix)]
  simp only
  rw [List.take_left, String.ofList_toList]

/-- A body that quotes a roster and ends in blank lines. -/
theorem stripRoster_appendRoster_quoted :
    stripRoster (appendRoster "See\n\nParticipants:\nBo <bo@hub>\n\n"
      [⟨"Ada", "ada@hub", .person⟩]) = "See\n\nParticipants:\nBo <bo@hub>\n\n" :=
  stripRoster_appendRoster _ _ (by decide) fun entry hmem => by
    obtain rfl := List.mem_singleton.mp hmem
    decide

end Workbench.Web.Roster
