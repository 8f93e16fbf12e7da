import Workbench.Lib.NumberText
import Workbench.Lib.Regex
import Workbench.Lib.Utf16

/-!
The name a worker states at the end of a message.

A name line is taken off a message once. So a message that ends in two of them still ends in one
when it is shown, and a name is read from the line that is left.
-/

namespace Workbench.Web.WorkerName

open List Workbench.Lib Workbench.Lib.NumberText Workbench.Lib.Regex

def WORKER_NAME_MAX : ℕ := 24

/-- `text.trimEnd()` -/
def trimEnd (cs : List Char) : List Char := cs.rdropWhile isTrimmed

/-- `[ \t]` -/
def isBlank (c : Char) : Bool := c = ' ' || c = '\t'

section

variable (isLetter : Char → Bool)

/-- `NAME_PATTERN` -/
def namePattern (name : List Char) : Bool :=
  name ≠ [] && name.all fun c => isLetter c || c = ' ' || c = '-'

def validWorkerName (raw : List Char) : Option (List Char) :=
  let name := trim raw
  if 0 < (Utf16.encode name).length ∧ (Utf16.encode name).length ≤ WORKER_NAME_MAX ∧
      namePattern isLetter name then some name
  else none

end

/-! ### The line -/

/-- What stands in front of the group of `NAME_LINE`. -/
def lineHead : Regex :=
  seqs [one (· = '\n'), star (one isBlank), caseless "name:", star (one isBlank)]

/-- What stands behind it. -/
def lineTail : Regex := seqs [star (one isBlank), finish]

/-- `[^\n]+?`: where the group can end, the shorter one first. -/
def groupEnds : List Char → List Char → List Place
  | _, [] => []
  | before, c :: cs => if c = '\n' then [] else ⟨c :: before, cs⟩ :: groupEnds (c :: before) cs

structure LineMatch where
  start : Place
  group : List Char
  finish : Place

/-- The matches of `NAME_LINE` that begin at a place, in the order in which they are tried. -/
def matchesAt (p : Place) : List LineMatch :=
  (lineHead.ends p).flatMap fun q => (groupEnds q.before q.after).flatMap fun x =>
    (lineTail.ends x).map fun y => ⟨p, q.after.take (q.after.length - x.after.length), y⟩

def execFrom (before : List Char) : List Char → Option LineMatch
  | [] => (matchesAt ⟨before, []⟩).head?
  | c :: cs => (matchesAt ⟨before, c :: cs⟩).head?.or (execFrom (c :: before) cs)

/-- `NAME_LINE.exec(text)` -/
def exec (text : List Char) : Option LineMatch := execFrom [] text

/-- `text.replace(NAME_LINE, "")` -/
def withoutLine (text : List Char) : List Char :=
  match exec text with
  | none => text
  | some m => m.start.before.reverse ++ m.finish.after

section

variable (isLetter : Char → Bool)

def nameFromMessage (body : List Char) : Option (List Char) :=
  match exec (trimEnd body) with
  | none => none
  | some m => validWorkerName isLetter m.group

def stripNameLine (body : List Char) : List Char :=
  let trimmed := trimEnd body
  if nameFromMessage isLetter trimmed = none then body else withoutLine trimmed

/-! ### What a message ends in -/

/-- A line that gives a valid name. -/
def IsNameLine (line : List Char) : Prop :=
  '\n' ∉ line ∧ ∃ blanks label rest, line = blanks ++ (label ++ rest) ∧
    (∀ c ∈ blanks, isBlank c) ∧ label.map Char.toLower = "name:".toList ∧
      (validWorkerName isLetter rest).isSome

/-- The body ends in a name line and white space, behind the front. -/
def EndsInNameLine (body front : List Char) : Prop :=
  ∃ line space, body = front ++ '\n' :: (line ++ space) ∧ IsNameLine isLetter line ∧
    ∀ c ∈ space, isTrimmed c

/-- White space and valid name lines. -/
inductive Trailing : List Char → Prop
  | space {cs} (h : ∀ c ∈ cs, isTrimmed c) : Trailing cs
  | line {cs rest} (h : IsNameLine isLetter cs) (hrest : Trailing rest) :
    Trailing ('\n' :: (cs ++ rest))

end

variable {isLetter : Char → Bool} {p q x : Place} {m : LineMatch}
  {cs ws front line rest body before : List Char}

/-! ### Trimming -/

lemma isTrimmed_of_isBlank {c : Char} (h : isBlank c) : isTrimmed c := by
  simp only [isBlank, Bool.or_eq_true, decide_eq_true_eq] at h
  rcases h with rfl | rfl <;> decide

lemma trimEnd_append (hws : ∀ c ∈ ws, isTrimmed c) : trimEnd (cs ++ ws) = trimEnd cs := by
  have hall : ∀ c ∈ ws.reverse, isTrimmed c := fun c hc => hws c (List.mem_reverse.mp hc)
  rw [trimEnd, List.rdropWhile, List.reverse_append, List.dropWhile_append_of_pos hall]
  rfl

lemma exists_trimEnd (cs : List Char) : ∃ space, cs = trimEnd cs ++ space ∧
    ∀ c ∈ space, isTrimmed c :=
  ⟨cs.rtakeWhile isTrimmed, List.rdropWhile_append_rtakeWhile.symm,
    fun _ hc => List.mem_rtakeWhile_imp hc⟩

@[simp] lemma trimEnd_trimEnd (cs : List Char) : trimEnd (trimEnd cs) = trimEnd cs :=
  List.rdropWhile_idempotent isTrimmed cs

/-- The end of a text is trimmed alone if something of it is left. -/
lemma trimEnd_append_of_ne_nil (h : trimEnd cs ≠ []) :
    trimEnd (front ++ cs) = front ++ trimEnd cs := by
  obtain ⟨space, hcs, hspace⟩ := exists_trimEnd cs
  have hsame : trimEnd (front ++ cs) = trimEnd (front ++ trimEnd cs) := by
    rw [hcs, ← List.append_assoc, trimEnd_append hspace, ← hcs]
  have hlast : ∀ hne, ¬ isTrimmed ((trimEnd cs).getLast hne) := fun hne =>
    List.rdropWhile_last_not isTrimmed cs hne
  rw [hsame, trimEnd, List.rdropWhile_eq_self_iff]
  intro hne
  rw [List.getLast_append_of_ne_nil _ h]
  exact hlast h

/-! ### What a match takes -/

lemma mem_groupEnds : x ∈ groupEnds before cs ↔
    ∃ group, group ≠ [] ∧ '\n' ∉ group ∧ Spans ⟨before, cs⟩ group x := by
  induction cs generalizing before with
  | nil =>
    simp only [groupEnds, List.not_mem_nil, false_iff, not_exists, not_and]
    intro group hne _ hspans
    exact hne (List.append_eq_nil_iff.mp hspans.after.symm).1
  | cons c cs ih =>
    rw [groupEnds]
    by_cases hc : c = '\n'
    · rw [if_pos hc]
      simp only [List.not_mem_nil, false_iff, not_exists, not_and]
      rintro (_ | ⟨d, group⟩) hne hline hspans
      · exact hne rfl
      · obtain ⟨rfl, -⟩ := List.cons.inj hspans.after
        exact hline (by simp [hc])
    · have hfirst : Spans ⟨before, c :: cs⟩ [c] ⟨c :: before, cs⟩ := ⟨rfl, rfl⟩
      rw [if_neg hc, List.mem_cons, ih]
      constructor
      · rintro (rfl | ⟨group, -, hline, hspans⟩)
        · exact ⟨[c], by simp, by simpa using Ne.symm hc, hfirst⟩
        · exact ⟨[c] ++ group, by simp, by simp [Ne.symm hc, hline], spans_append hfirst hspans⟩
      · rintro ⟨_ | ⟨d, group⟩, hne, hline, hspans⟩
        · exact absurd rfl hne
        · obtain ⟨rfl, hrest⟩ := List.cons.inj hspans.after
          have hbehind : Spans ⟨c :: before, cs⟩ group x := ⟨hrest, by simp [hspans.before]⟩
          by_cases hgroup : group = []
          · subst hgroup
            exact .inl (spans_nil.1 hbehind)
          · exact .inr ⟨group, hgroup, fun hmem => hline (List.mem_cons_of_mem c hmem), hbehind⟩

/-- The label of a name line, with the newline before it and the blanks around it. -/
lemma mem_lineHead : q ∈ lineHead.ends p ↔ ∃ blanks label blanks', (∀ c ∈ blanks, isBlank c) ∧
    label.map Char.toLower = "name:".toList ∧ (∀ c ∈ blanks', isBlank c) ∧
      Spans p (['\n'] ++ (blanks ++ (label ++ blanks'))) q := by
  simp only [lineHead, seqs, mem_ends_seq, mem_ends_empty, mem_ends_one, mem_ends_caseless]
  constructor
  · rintro ⟨x₁, ⟨c, hc, h₁⟩, x₂, hx₂, x₃, ⟨label, hlabel, h₃⟩, x₄, hx₄, rfl⟩
    obtain ⟨blanks, h₂, hblanks⟩ := mem_ends_star_one hx₂
    obtain ⟨blanks', h₄, hblanks'⟩ := mem_ends_star_one hx₄
    obtain rfl : c = '\n' := by simpa using hc
    exact ⟨blanks, label, blanks', hblanks, hlabel, hblanks',
      spans_append h₁ (spans_append h₂ (spans_append h₃ h₄))⟩
  · rintro ⟨blanks, label, blanks', hblanks, hlabel, hblanks', hspans⟩
    obtain ⟨x₁, h₁, hspans⟩ := spans_split hspans
    obtain ⟨x₂, h₂, hspans⟩ := spans_split hspans
    obtain ⟨x₃, h₃, h₄⟩ := spans_split hspans
    exact ⟨x₁, ⟨'\n', by simp, h₁⟩, x₂, mem_ends_star_one_of_spans h₂ hblanks, x₃,
      ⟨label, hlabel, h₃⟩, q, mem_ends_star_one_of_spans h₄ hblanks', rfl⟩

lemma mem_lineTail : q ∈ lineTail.ends p ↔
    ∃ blanks, (∀ c ∈ blanks, isBlank c) ∧ Spans p blanks q ∧ q.after = [] := by
  have hfinish (x : Place) : q ∈ finish.ends x ↔ q = x ∧ x.after = [] := by
    rw [ends, mem_look, List.isEmpty_iff]
  simp only [lineTail, seqs, mem_ends_seq, mem_ends_empty]
  constructor
  · rintro ⟨x, hx, y, hy, rfl⟩
    obtain ⟨blanks, hspans, hblanks⟩ := mem_ends_star_one hx
    obtain ⟨rfl, hend⟩ := (hfinish x).mp hy
    exact ⟨blanks, hblanks, hspans, hend⟩
  · rintro ⟨blanks, hblanks, hspans, hend⟩
    exact ⟨q, mem_ends_star_one_of_spans hspans hblanks, q, (hfinish q).mpr ⟨rfl, hend⟩, rfl⟩

lemma newline_not_mem_blanks (h : ∀ c ∈ cs, isBlank c) : '\n' ∉ cs := fun hmem =>
  absurd (h _ hmem) (by decide)

lemma newline_not_mem_label (h : cs.map Char.toLower = "name:".toList) : '\n' ∉ cs := by
  intro hmem
  have hlower : '\n'.toLower ∈ "name:".toList := h ▸ List.mem_map_of_mem hmem
  exact absurd hlower (by decide)

/-- What a match takes is the last line of the text. -/
lemma mem_matchesAt (h : m ∈ matchesAt p) : m.start = p ∧ m.finish.after = [] ∧
    ∃ blanks label blanks' blanks'', (∀ c ∈ blanks, isBlank c) ∧
      label.map Char.toLower = "name:".toList ∧ (∀ c ∈ blanks', isBlank c) ∧
        (∀ c ∈ blanks'', isBlank c) ∧ '\n' ∉ m.group ∧
          p.after = '\n' :: (blanks ++ (label ++ (blanks' ++ m.group ++ blanks''))) := by
  simp only [matchesAt, List.mem_flatMap, List.mem_map] at h
  obtain ⟨q, hq, x, hx, y, hy, rfl⟩ := h
  obtain ⟨blanks, label, blanks', hblanks, hlabel, hblanks', hhead⟩ := mem_lineHead.1 hq
  obtain ⟨group, -, hline, hgroup⟩ := mem_groupEnds.1 hx
  obtain ⟨blanks'', hblanks'', htail, hend⟩ := mem_lineTail.1 hy
  have hbehind : q.after = group ++ x.after := hgroup.after
  have htake : q.after.take (q.after.length - x.after.length) = group := by
    rw [hbehind, List.length_append, Nat.add_sub_cancel, List.take_left]
  simp only [htake]
  refine ⟨trivial, hend, blanks, label, blanks', blanks'', hblanks, hlabel, hblanks', hblanks'',
    hline, ?_⟩
  rw [hhead.after, hbehind, htail.after, hend]
  simp

/-- A name line at the end of a text is matched. -/
lemma exists_match {blanks label : List Char} (hblanks : ∀ c ∈ blanks, isBlank c)
    (hlabel : label.map Char.toLower = "name:".toList) (hne : rest ≠ []) (hline : '\n' ∉ rest) :
    ∃ m, m ∈ matchesAt ⟨before, '\n' :: (blanks ++ (label ++ rest))⟩ := by
  obtain ⟨q, hspans, hbehind⟩ : ∃ q, Spans ⟨before, '\n' :: (blanks ++ (label ++ rest))⟩
      (['\n'] ++ (blanks ++ (label ++ []))) q ∧ q.after = rest :=
    ⟨⟨_, rest⟩, ⟨by simp, rfl⟩, rfl⟩
  have hq := mem_lineHead.2 ⟨blanks, label, [], hblanks, hlabel, by simp, hspans⟩
  obtain ⟨x, hgroup⟩ : ∃ x, Spans ⟨q.before, q.after⟩ rest x :=
    ⟨⟨_, []⟩, by rw [hbehind, List.append_nil], rfl⟩
  have hx := mem_groupEnds.2 ⟨rest, hne, hline, hgroup⟩
  have hend : x.after = [] := by simpa [hbehind] using hgroup.after
  have hy := mem_lineTail.2 ⟨[], by simp, spans_refl x, hend⟩
  exact ⟨_, List.mem_flatMap.mpr ⟨q, hq, List.mem_flatMap.mpr ⟨x, hx,
    List.mem_map.mpr ⟨x, hy, rfl⟩⟩⟩⟩

lemma matchesAt_eq_nil (h : ∀ line, p.after = '\n' :: line → '\n' ∈ line) : matchesAt p = [] := by
  rw [List.eq_nil_iff_forall_not_mem]
  intro m hm
  obtain ⟨-, -, blanks, label, blanks', blanks'', hblanks, hlabel, hblanks', hblanks'', hline,
    hafter⟩ := mem_matchesAt hm
  have hmem := h _ hafter
  simp [newline_not_mem_blanks hblanks, newline_not_mem_label hlabel,
    newline_not_mem_blanks hblanks', newline_not_mem_blanks hblanks'', hline] at hmem

/-- The place a match begins at is found as the last newline of the text. -/
lemma execFrom_append (front : List Char) :
    execFrom before (front ++ '\n' :: line) =
      execFrom (front.reverse ++ before) ('\n' :: line) := by
  induction front generalizing before with
  | nil => rfl
  | cons c front ih =>
    have hnone : matchesAt ⟨before, c :: (front ++ '\n' :: line)⟩ = [] := by
      refine matchesAt_eq_nil fun rest hrest => ?_
      obtain ⟨-, rfl⟩ := List.cons.inj hrest
      simp
    rw [List.cons_append, execFrom, hnone, List.head?_nil, Option.none_or, ih, List.reverse_cons,
      List.append_assoc, List.singleton_append]

/-- **A text is matched in its last line** if that is a name line. -/
lemma exec_of_line {blanks label : List Char} (hblanks : ∀ c ∈ blanks, isBlank c)
    (hlabel : label.map Char.toLower = "name:".toList) (hne : rest ≠ []) (hline : '\n' ∉ rest) :
    ∃ m ∈ matchesAt ⟨front.reverse, '\n' :: (blanks ++ (label ++ rest))⟩,
      exec (front ++ '\n' :: (blanks ++ (label ++ rest))) = some m := by
  obtain ⟨m, hm⟩ : ∃ m, m ∈ matchesAt ⟨front.reverse, '\n' :: (blanks ++ (label ++ rest))⟩ :=
    exists_match hblanks hlabel hne hline
  obtain ⟨first, others, hmatches⟩ := List.exists_cons_of_ne_nil (List.ne_nil_of_mem hm)
  refine ⟨first, by simp [hmatches], ?_⟩
  rw [exec, execFrom_append, List.append_nil, execFrom, hmatches, List.head?_cons,
    Option.some_or]

lemma of_execFrom (h : execFrom before cs = some m) : ∃ front p, cs = front ++ p.after ∧
    p.before = front.reverse ++ before ∧ m ∈ matchesAt p := by
  induction cs generalizing before with
  | nil =>
    rw [execFrom] at h
    exact ⟨[], ⟨before, []⟩, rfl, rfl, List.mem_of_head? h⟩
  | cons c cs ih =>
    rw [execFrom] at h
    rcases Option.or_eq_some_iff.mp h with hhere | ⟨-, hlater⟩
    · exact ⟨[], ⟨before, c :: cs⟩, rfl, rfl, List.mem_of_head? hhere⟩
    · obtain ⟨front, p, rfl, hbefore, hm⟩ := ih hlater
      exact ⟨c :: front, p, rfl, by simp [hbefore], hm⟩

/-! ### What the name depends on -/

lemma trim_around {before : List Char} (hbefore : ∀ c ∈ before, isTrimmed c)
    (hws : ∀ c ∈ ws, isTrimmed c) : trim (before ++ cs ++ ws) = trim cs := by
  obtain ⟨front, back, hcs, hfront, hback⟩ := exists_trim cs
  have hsplit : before ++ cs ++ ws = (before ++ front) ++ trim cs ++ (back ++ ws) := by
    conv_lhs => rw [hcs]
    simp
  have hleft : ∀ c ∈ before ++ front, isTrimmed c := fun c hc =>
    (List.mem_append.mp hc).elim (hbefore c) (hfront c)
  have hright : ∀ c ∈ back ++ ws, isTrimmed c := fun c hc =>
    (List.mem_append.mp hc).elim (hback c) (hws c)
  rw [hsplit, trim_of_bare hleft (bare_trim cs) hright]

lemma trim_trimEnd (cs : List Char) : trim (trimEnd cs) = trim cs := by
  obtain ⟨space, hcs, hspace⟩ := exists_trimEnd cs
  have haround : trim ([] ++ trimEnd cs ++ space) = trim (trimEnd cs) :=
    trim_around (by simp) hspace
  rw [← haround, List.nil_append, ← hcs]

lemma validWorkerName_congr {a b : List Char} (h : trim a = trim b) :
    validWorkerName isLetter a = validWorkerName isLetter b := by
  simp only [validWorkerName, h]

lemma trim_ne_nil (h : (validWorkerName isLetter cs).isSome) : trim cs ≠ [] := by
  intro hnil
  simp [validWorkerName, hnil] at h

/-- The label of a line is found in one way. -/
lemma label_inj {blanks blanks' label label' rest' : List Char} (hblanks : ∀ c ∈ blanks, isBlank c)
    (hblanks' : ∀ c ∈ blanks', isBlank c) (hlabel : label.map Char.toLower = "name:".toList)
    (hlabel' : label'.map Char.toLower = "name:".toList)
    (h : blanks ++ (label ++ rest) = blanks' ++ (label' ++ rest')) : rest = rest' := by
  have hhead (label more : List Char) (hlabel : label.map Char.toLower = "name:".toList) :
      ∀ c ∈ (label ++ more).head?, isBlank c = false := by
    cases label with
    | nil => cases hlabel
    | cons d label =>
      intro c hc
      obtain rfl : d = c := Option.some.inj hc
      have hlower : d.toLower = 'n' := (List.cons.inj hlabel).1
      simp only [isBlank, Bool.or_eq_false_iff, decide_eq_false_iff_not]
      constructor <;> rintro rfl <;> exact absurd hlower (by decide)
  obtain ⟨-, hrest⟩ := run_append_inj h hblanks hblanks' (hhead _ _ hlabel) (hhead _ _ hlabel')
  have hlength : label.length = label'.length := by
    rw [← List.length_map Char.toLower, hlabel, ← hlabel', List.length_map]
  exact (List.append_inj hrest hlength).2

/-! ### A message with a name line -/

lemma trimEnd_of_ends {blanks label space : List Char}
    (hvalid : (validWorkerName isLetter rest).isSome) (hspace : ∀ c ∈ space, isTrimmed c) :
    trimEnd (front ++ '\n' :: (blanks ++ (label ++ rest) ++ space)) =
      front ++ '\n' :: (blanks ++ (label ++ trimEnd rest)) := by
  have hne : trimEnd rest ≠ [] := fun hnil => trim_ne_nil hvalid (by
    rw [← trim_trimEnd, hnil]
    rfl)
  have hsplit : front ++ '\n' :: (blanks ++ (label ++ rest) ++ space) =
      (front ++ '\n' :: (blanks ++ label)) ++ rest ++ space := by simp
  rw [hsplit, trimEnd_append hspace, trimEnd_append_of_ne_nil hne]
  simp

lemma stripNameLine_eq (body : List Char) : stripNameLine isLetter body =
    if nameFromMessage isLetter body = none then body else withoutLine (trimEnd body) := by
  rw [stripNameLine, nameFromMessage, trimEnd_trimEnd, ← nameFromMessage]

/-- **What is read and what is taken off** of a message that ends in a name line. -/
theorem of_endsInNameLine (h : EndsInNameLine isLetter body front) :
    (nameFromMessage isLetter body).isSome ∧ stripNameLine isLetter body = front := by
  obtain ⟨line, space, rfl, ⟨hline, blanks, label, rest, rfl, hblanks, hlabel, hvalid⟩, hspace⟩ := h
  have htrimmed : trimEnd (front ++ '\n' :: (blanks ++ (label ++ rest) ++ space)) =
      front ++ '\n' :: (blanks ++ (label ++ trimEnd rest)) := trimEnd_of_ends hvalid hspace
  have hne : trimEnd rest ≠ [] := fun hnil => trim_ne_nil hvalid (by
    rw [← trim_trimEnd, hnil]
    rfl)
  have hrest : '\n' ∉ trimEnd rest := fun hmem => hline (by
    have hmem' : '\n' ∈ rest := (List.rdropWhile_prefix isTrimmed rest).subset hmem
    simp [hmem'])
  obtain ⟨m, hm, hexec⟩ : ∃ m ∈ matchesAt ⟨front.reverse, _⟩, exec (front ++ _) = some m :=
    exec_of_line hblanks hlabel hne hrest
  obtain ⟨hstart, hfinish, blanks₁, label₁, blanks', blanks'', hblanks₁, hlabel₁, hblanks',
    hblanks'', -, hafter⟩ := mem_matchesAt hm
  have hgroup : trimEnd rest = blanks' ++ m.group ++ blanks'' :=
    label_inj hblanks hblanks₁ hlabel hlabel₁ (List.cons.inj hafter).2
  have hname : (validWorkerName isLetter m.group).isSome := by
    have htrim : trim m.group = trim rest := by
      rw [← trim_trimEnd rest, hgroup,
        trim_around (fun c hc => isTrimmed_of_isBlank (hblanks' c hc))
          fun c hc => isTrimmed_of_isBlank (hblanks'' c hc)]
    rwa [validWorkerName_congr htrim]
  have hfrom : nameFromMessage isLetter (front ++ '\n' :: (blanks ++ (label ++ rest) ++ space)) =
      validWorkerName isLetter m.group := by
    rw [nameFromMessage, htrimmed, hexec]
  refine ⟨by rw [hfrom]; exact hname, ?_⟩
  rw [stripNameLine_eq, hfrom, if_neg (Option.isSome_iff_ne_none.mp hname), withoutLine, htrimmed,
    hexec]
  simp [hstart, hfinish]

/-- **A message with a name ends in a name line.** -/
theorem exists_endsInNameLine (h : (nameFromMessage isLetter body).isSome) :
    ∃ front, EndsInNameLine isLetter body front := by
  rw [nameFromMessage] at h
  cases hexec : exec (trimEnd body) with
  | none =>
    rw [hexec] at h
    cases h
  | some m =>
    rw [hexec] at h
    obtain ⟨front, p, hbody, -, hm⟩ := of_execFrom hexec
    obtain ⟨-, -, blanks, label, blanks', blanks'', hblanks, hlabel, hblanks', hblanks'', hline,
      hafter⟩ := mem_matchesAt hm
    obtain ⟨space, hsplit, hspace⟩ := exists_trimEnd body
    have hname : (validWorkerName isLetter (blanks' ++ m.group ++ blanks'')).isSome := by
      rwa [validWorkerName_congr (trim_around (fun c hc => isTrimmed_of_isBlank (hblanks' c hc))
        fun c hc => isTrimmed_of_isBlank (hblanks'' c hc))]
    refine ⟨front, blanks ++ (label ++ (blanks' ++ m.group ++ blanks'')), space, ?_, ⟨?_, blanks,
      label, _, rfl, hblanks, hlabel, hname⟩, hspace⟩
    · rw [hsplit, hbody, hafter]
      simp
    · simp [newline_not_mem_blanks hblanks, newline_not_mem_label hlabel,
        newline_not_mem_blanks hblanks', newline_not_mem_blanks hblanks'', hline]

/-- **Only white space and name lines are taken off.** -/
theorem strip_trailing (body : List Char) : ∃ removed,
    body = stripNameLine isLetter body ++ removed ∧ Trailing isLetter removed := by
  cases hname : nameFromMessage isLetter body with
  | none =>
    rw [stripNameLine_eq, if_pos hname]
    exact ⟨[], (List.append_nil body).symm, .space (by simp)⟩
  | some name =>
    obtain ⟨front, hends⟩ := exists_endsInNameLine (by rw [hname]; rfl)
    obtain ⟨-, hstrip⟩ := of_endsInNameLine hends
    obtain ⟨line, space, rfl, hline, hspace⟩ := hends
    exact ⟨'\n' :: (line ++ space), by rw [hstrip], .line hline (.space hspace)⟩

/-- A message ends in two name lines, with nothing but white space behind each. -/
def EndsInTwoNameLines (isLetter : Char → Bool) (body : List Char) : Prop :=
  ∃ middle front, EndsInNameLine isLetter body middle ∧ EndsInNameLine isLetter middle front

/-- **A name line is never shown** if the message does not end in two of them. -/
theorem neverShown_iff (isLetter : Char → Bool) (body : List Char) :
    (nameFromMessage isLetter (stripNameLine isLetter body) = none ∧
      ∃ removed, body = stripNameLine isLetter body ++ removed ∧ Trailing isLetter removed) ↔
    ¬ EndsInTwoNameLines isLetter body := by
  constructor
  · rintro ⟨hnone, -⟩ ⟨middle, front, hbody, hmiddle⟩
    rw [(of_endsInNameLine hbody).2] at hnone
    have hsome := (of_endsInNameLine hmiddle).1
    rw [hnone] at hsome
    cases hsome
  · intro hends
    refine ⟨?_, strip_trailing body⟩
    by_contra hshown
    have hsome : (nameFromMessage isLetter body).isSome := by
      by_contra hname
      rw [Bool.not_eq_true, Option.isSome_eq_false_iff, Option.isNone_iff_eq_none] at hname
      rw [stripNameLine_eq, if_pos hname] at hshown
      exact hshown hname
    obtain ⟨middle, hmiddle⟩ := exists_endsInNameLine hsome
    rw [(of_endsInNameLine hmiddle).2] at hshown
    obtain ⟨front, hfront⟩ := exists_endsInNameLine (Option.isSome_iff_ne_none.mpr hshown)
    exact hends ⟨middle, front, hmiddle, hfront⟩

/-- **The first of two names is shown.** -/
theorem first_of_two_shown :
    ¬ (nameFromMessage Char.isAlpha
        (stripNameLine Char.isAlpha "hi\nName: A\nName: B".toList) = none ∧
      ∃ removed, "hi\nName: A\nName: B".toList =
          stripNameLine Char.isAlpha "hi\nName: A\nName: B".toList ++ removed ∧
        Trailing Char.isAlpha removed) := by
  have hshown : nameFromMessage Char.isAlpha
      (stripNameLine Char.isAlpha "hi\nName: A\nName: B".toList) = some ['A'] := by decide
  rintro ⟨hnone, -⟩
  rw [hshown] at hnone
  cases hnone

end Workbench.Web.WorkerName
