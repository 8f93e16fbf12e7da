import Workbench.Web.ThreadRoots

/-!
Prefixes of a subject.

A subject is compared without the first prefix that stands before it. A prefix is a word and then
colons and tags in brackets; whatever of these stands behind a prefix goes with it, but a second
word stays. So a subject is not changed by a prefix if it does not begin like a part of one itself,
and it is changed by any further prefix.
-/

namespace Workbench.Web.Threads

open List Workbench.Lib Workbench.Lib.Regex
open Workbench.Lib.NumberText (isTrimmed isTrimmed_of_isAlpha trim)

/-- `\s*\[[^\]]*\]|\s*:` -/
def subjectTag : Regex :=
  alt (seqs [spaces, character '[', star (one fun c => c ≠ ']'), character ']'])
    (seq spaces (character ':'))

def prefixWords : List String := ["re", "fwd", "fw", "aw"]

lemma subjectPrefix_eq : subjectPrefix =
    seqs [start, spaces, alts (prefixWords.map caseless), plus subjectTag, spaces] := rfl

/-- A word in any case, a colon, and white space. -/
def IsReplyPrefix (text : List Char) : Prop :=
  ∃ word blanks, text = word ++ ':' :: blanks ∧
    (∃ name ∈ prefixWords, word.map Char.toLower = name.toList) ∧ ∀ c ∈ blanks, isTrimmed c

/-- Behind its spaces the text begins with a colon, or with a bracket that is closed. -/
def BeginsWithTag (text : List Char) : Prop :=
  ':' ∈ (text.dropWhile isTrimmed).head? ∨
    ∃ rest, text.dropWhile isTrimmed = '[' :: rest ∧ ']' ∈ rest

/-- The text begins with no prefix and no part of one. -/
def Plain (text : List Char) : Prop :=
  ¬ BeginsWithTag text ∧ subjectPrefix.ends ⟨[], text⟩ = []

def prefixed (prefixes : List (List Char)) (subject : String) : String :=
  String.ofList (prefixes.flatten ++ subject.toList)

variable {p q x : Place} {text word blanks rest m : List Char} {name : String}

/-! ### Tags -/

lemma mem_ends_character {c : Char} : q ∈ (character c).ends p ↔ Spans p [c] q := by
  simp [character, mem_ends_one]

lemma dropWhile_blanks (h : ∀ c ∈ blanks, isTrimmed c) :
    (blanks ++ rest).dropWhile isTrimmed = rest.dropWhile isTrimmed :=
  List.dropWhile_append_of_pos h

lemma beginsWithTag_blanks (h : ∀ c ∈ blanks, isTrimmed c) :
    BeginsWithTag (blanks ++ text) ↔ BeginsWithTag text := by
  rw [BeginsWithTag, BeginsWithTag, dropWhile_blanks h]

lemma not_beginsWithTag_of_isAlpha {c : Char} (h : c.isAlpha) : ¬ BeginsWithTag (c :: rest) := by
  rw [BeginsWithTag, List.dropWhile_cons_of_neg (by simp [isTrimmed_of_isAlpha h])]
  rintro (hcolon | ⟨_, hopen, -⟩)
  · obtain rfl := Option.some.inj hcolon
    exact absurd h (by decide)
  · obtain rfl := (List.cons.inj hopen).1
    exact absurd h (by decide)

/-- What a tag takes. -/
def IsTag (tag : List Char) : Prop :=
  ∃ blanks, (∀ c ∈ blanks, isTrimmed c) ∧
    (tag = blanks ++ [':'] ∨
      ∃ inner, (∀ c ∈ inner, c ≠ ']') ∧ tag = blanks ++ '[' :: (inner ++ [']']))

lemma mem_ends_subjectTag : q ∈ subjectTag.ends p ↔ ∃ tag, IsTag tag ∧ Spans p tag q := by
  constructor
  · intro h
    rcases mem_ends_alt.1 h with h | h
    · obtain ⟨x, hblanks, h⟩ := mem_ends_seq.1 h
      obtain ⟨y, hopen, h⟩ := mem_ends_seq.1 h
      obtain ⟨z, hinner, h⟩ := mem_ends_seq.1 h
      obtain ⟨w, hclose, h⟩ := mem_ends_seq.1 h
      obtain rfl := mem_ends_empty.1 h
      obtain ⟨blanks, hblanks, hall⟩ := mem_ends_star_one hblanks
      obtain ⟨inner, hinner, hclosed⟩ := mem_ends_star_one hinner
      have hspans := spans_append hblanks (spans_append (mem_ends_character.1 hopen)
        (spans_append hinner (mem_ends_character.1 hclose)))
      exact ⟨_, ⟨blanks, hall, .inr ⟨inner, by simpa using hclosed, rfl⟩⟩, hspans⟩
    · obtain ⟨x, hblanks, h⟩ := mem_ends_seq.1 h
      obtain ⟨blanks, hblanks, hall⟩ := mem_ends_star_one hblanks
      exact ⟨_, ⟨blanks, hall, .inl rfl⟩, spans_append hblanks (mem_ends_character.1 h)⟩
  · rintro ⟨_, ⟨blanks, hall, rfl | ⟨inner, hclosed, rfl⟩⟩, hspans⟩
    · obtain ⟨x, hblanks, hcolon⟩ := spans_split hspans
      exact mem_ends_alt.2 (.inr (mem_ends_seq.2 ⟨x, mem_ends_star_one_of_spans hblanks hall,
        mem_ends_character.2 hcolon⟩))
    · obtain ⟨x, hblanks, hspans⟩ := spans_split hspans
      obtain ⟨y, hopen, hspans⟩ := @spans_split x q ['['] (inner ++ [']']) hspans
      obtain ⟨z, hinner, hclose⟩ := spans_split hspans
      exact mem_ends_alt.2 (.inl (mem_ends_seq.2 ⟨x, mem_ends_star_one_of_spans hblanks hall,
        mem_ends_seq.2 ⟨y, mem_ends_character.2 hopen, mem_ends_seq.2 ⟨z,
          mem_ends_star_one_of_spans hinner (by simpa using hclosed), mem_ends_seq.2 ⟨q,
            mem_ends_character.2 hclose, mem_ends_empty.2 rfl⟩⟩⟩⟩))

/-- A tag shows a colon or a bracket. -/
lemma IsTag.visible {tag : List Char} (h : IsTag tag) : ∃ c ∈ tag, isTrimmed c = false := by
  obtain ⟨blanks, -, rfl | ⟨inner, -, rfl⟩⟩ := h
  · exact ⟨':', by simp, by decide⟩
  · exact ⟨'[', by simp, by decide⟩

lemma beginsWithTag_iff : BeginsWithTag p.after ↔ subjectTag.ends p ≠ [] := by
  constructor
  · intro h
    have hsplit : p.after = p.after.takeWhile isTrimmed ++ p.after.dropWhile isTrimmed :=
      List.takeWhile_append_dropWhile.symm
    have hblank : ∀ c ∈ p.after.takeWhile isTrimmed, isTrimmed c :=
      fun c hc => List.mem_takeWhile_imp hc
    obtain ⟨tag, rest, htag, hp⟩ : ∃ tag rest, IsTag tag ∧ p.after = tag ++ rest := by
      rcases h with hcolon | ⟨rest, hopen, hclose⟩
      · obtain ⟨rest, hrest⟩ := List.head?_eq_some_iff.mp hcolon
        refine ⟨_, rest, ⟨_, hblank, .inl rfl⟩, ?_⟩
        rw [List.append_assoc, List.singleton_append, ← hrest, ← hsplit]
      · obtain ⟨inner, after, rfl, hclosed⟩ := List.eq_append_cons_of_mem hclose
        have hinner : ∀ c ∈ inner, c ≠ ']' := fun c hc heq => hclosed (heq ▸ hc)
        refine ⟨_, after, ⟨_, hblank, .inr ⟨inner, hinner, rfl⟩⟩, ?_⟩
        rw [hopen] at hsplit
        simpa using hsplit
    obtain ⟨q, hq⟩ : ∃ q, Spans p tag q := ⟨⟨tag.reverse ++ p.before, rest⟩, hp, rfl⟩
    exact List.ne_nil_of_mem (mem_ends_subjectTag.2 ⟨tag, htag, hq⟩)
  · intro h
    obtain ⟨q, hq⟩ := List.exists_mem_of_ne_nil _ h
    obtain ⟨_, ⟨blanks, hall, rfl | ⟨inner, -, rfl⟩⟩, hspans⟩ := mem_ends_subjectTag.1 hq
    · left
      rw [hspans.after, List.append_assoc, dropWhile_blanks hall]
      rfl
    · right
      refine ⟨inner ++ ']' :: q.after, ?_, by simp⟩
      rw [hspans.after, List.append_assoc, dropWhile_blanks hall, List.cons_append,
        List.dropWhile_cons_of_neg (by decide), List.append_assoc]
      rfl

/-! ### The words -/

lemma first_alt_right {r s : Regex} (hr : r.ends p = []) (hs : First s p q) :
    First (alt r s) p q := by
  rw [First, ends, hr, List.nil_append]
  exact hs

lemma first_alt_left {r : Regex} (hr : First r p q) (s : Regex) : First (alt r s) p q := by
  obtain ⟨l, hl⟩ := List.head?_eq_some_iff.mp hr
  rw [First, ends, hl, List.cons_append, List.head?_cons]

/-- A word is not matched where other letters stand. -/
lemma ends_caseless_eq_nil (h : ¬ name.toList <+: p.after.map Char.toLower) :
    (caseless name).ends p = [] := by
  refine List.eq_nil_iff_forall_not_mem.mpr fun q hq => h ?_
  obtain ⟨m, hm, hs⟩ := mem_ends_caseless.1 hq
  exact ⟨q.after.map Char.toLower, by rw [hs.after, List.map_append, hm]⟩

/-- In front of a colon the whole word is matched: `fwd` is tried before `fw`. -/
lemma first_words (hname : name ∈ prefixWords) (hword : word.map Char.toLower = name.toList)
    (hp : p.after = word ++ ':' :: rest) (hs : Spans p word q) :
    First (alts (prefixWords.map caseless)) p q := by
  have hlower : p.after.map Char.toLower = name.toList ++ ':' :: rest.map Char.toLower := by
    rw [hp, List.map_append, hword, List.map_cons]
    rfl
  have hfirst : First (caseless name) p q := by
    rw [First, ends_caseless hword hs, List.head?_cons]
  have hother : ∀ other : String, ¬ other.toList <+: name.toList ++ ':' :: rest.map Char.toLower →
      (caseless other).ends p = [] := fun other h => ends_caseless_eq_nil (by rwa [hlower])
  simp only [prefixWords, List.mem_cons, List.not_mem_nil, or_false] at hname
  rcases hname with rfl | rfl | rfl | rfl
  · exact first_alt_left hfirst _
  · exact first_alt_right (hother "re" (by simp [List.cons_prefix_cons]))
      (first_alt_left hfirst _)
  · exact first_alt_right (hother "re" (by simp [List.cons_prefix_cons]))
      (first_alt_right (hother "fwd" (by simp [List.cons_prefix_cons])) (first_alt_left hfirst _))
  · exact first_alt_right (hother "re" (by simp [List.cons_prefix_cons]))
      (first_alt_right (hother "fwd" (by simp [List.cons_prefix_cons]))
        (first_alt_right (hother "fw" (by simp [List.cons_prefix_cons])) (first_alt_left hfirst _)))

/-- A word of a prefix begins with a letter. -/
lemma exists_letter (hname : name ∈ prefixWords) (hword : word.map Char.toLower = name.toList) :
    ∃ c tail, word = c :: tail ∧ c.isAlpha := by
  have hall : ∀ name ∈ prefixWords, ∃ d tail, name.toList = d :: tail ∧ d.isLower := by
    intro name hname
    simp only [prefixWords, List.mem_cons, List.not_mem_nil, or_false] at hname
    rcases hname with rfl | rfl | rfl | rfl
    all_goals exact ⟨_, _, rfl, by decide⟩
  obtain ⟨d, tail, hd, hlower⟩ := hall name hname
  rw [hd] at hword
  obtain ⟨c, tail', rfl, rfl, -⟩ := List.map_eq_cons_iff.mp hword
  refine ⟨c, tail', rfl, ?_⟩
  by_cases hup : c.isUpper
  · exact isAlpha_iff.2 (.inl hup)
  · rw [toLower_of_not_isUpper (by simpa using hup)] at hlower
    exact isAlpha_iff.2 (.inr hlower)

/-! ### What is left of a subject -/

/-- Where no tag begins, a repetition of tags takes nothing. -/
lemma first_star_subjectTag (h : ¬ BeginsWithTag p.after) : First (star subjectTag) p p := by
  refine first_of_all (List.ne_nil_of_mem (mem_ends_star.2 (.inr rfl))) fun q hq => ?_
  rcases mem_ends_star.1 hq with ⟨x, hx, -⟩ | hq
  · exact absurd (beginsWithTag_iff.2 (List.ne_nil_of_mem hx)) h
  · exact hq

/-- The colon behind the word is the first tag. -/
lemma first_subjectTag (hs : Spans p [':'] q) : First subjectTag p q := by
  have hmem : q ∈ subjectTag.ends p :=
    mem_ends_subjectTag.2 ⟨[':'], ⟨[], by simp, .inl rfl⟩, hs⟩
  refine first_of_all (List.ne_nil_of_mem hmem) fun q' hq' => ?_
  obtain ⟨_, ⟨blanks, hall, htag⟩, hspans⟩ := mem_ends_subjectTag.1 hq'
  have hp := hs.after.symm.trans hspans.after
  cases blanks with
  | nil =>
    rcases htag with rfl | ⟨inner, -, rfl⟩
    · exact Place.ext (hspans.before.trans hs.before.symm) (List.cons.inj hp).2.symm
    · exact absurd (List.cons.inj hp).1 (by decide)
  | cons c blanks =>
    have hc : ':' = c := by rcases htag with rfl | ⟨inner, -, rfl⟩ <;> exact (List.cons.inj hp).1
    exact absurd (hall c List.mem_cons_self) (by rw [← hc]; decide)

lemma withoutPrefix_of_first {subject : String}
    (h : First subjectPrefix ⟨[], subject.toList⟩ q) :
    withoutPrefix subject = String.ofList q.after := by
  obtain ⟨l, hl⟩ := List.head?_eq_some_iff.mp h
  rw [withoutPrefix, hl]

/-- The place behind a prefix and the tags that follow it. -/
lemma exists_first_subjectPrefix {text tail : List Char} (hreply : IsReplyPrefix text) :
    ∃ word blanks tagged q, text = word ++ ':' :: blanks ∧ (∀ c ∈ blanks, isTrimmed c) ∧
      tagged.after = blanks ++ tail ∧ First (star subjectTag) tagged q ∧
      First subjectPrefix ⟨[], text ++ tail⟩ (past isTrimmed q) := by
  obtain ⟨word, blanks, rfl, ⟨name, hname, hword⟩, hblanks⟩ := hreply
  let p : Place := ⟨[], word ++ ':' :: blanks ++ tail⟩
  let q₁ : Place := ⟨word.reverse, ':' :: (blanks ++ tail)⟩
  let q₂ : Place := ⟨':' :: word.reverse, blanks ++ tail⟩
  have hword₁ : Spans p word q₁ := ⟨by simp [p, q₁], by simp [p, q₁]⟩
  obtain ⟨q, hq⟩ : ∃ q, First (star subjectTag) q₂ q :=
    Option.isSome_iff_exists.mp (by
      rw [List.isSome_head?]
      exact List.ne_nil_of_mem (mem_ends_star.2 (.inr rfl)))
  refine ⟨word, blanks, q₂, q, rfl, hblanks, rfl, hq, ?_⟩
  have hspaces : First spaces p p := by
    obtain ⟨c, l, hc, halpha⟩ := exists_letter hname hword
    refine first_star_one_of_spans (spans_refl p) (by simp) fun d hd => ?_
    obtain rfl : c = d := by simpa [p, hc] using hd
    exact isTrimmed_of_isAlpha halpha
  have hstart : First start p p := rfl
  have hwords : First (alts (prefixWords.map caseless)) p q₁ :=
    @first_words p q₁ word (blanks ++ tail) name hname hword (by simp [p]) hword₁
  have htags : First (plus subjectTag) q₁ q := first_seq (first_subjectTag ⟨rfl, rfl⟩) hq
  rw [subjectPrefix_eq]
  exact first_seq hstart (first_seq hspaces (first_seq hwords (first_seq htags
    (first_seq (first_star_one isTrimmed q) (first_empty _)))))

/-- Behind a prefix only spaces are left out, if no tag begins there. -/
lemma withoutPrefix_append {text tail : List Char} (hreply : IsReplyPrefix text)
    (hno : ¬ BeginsWithTag tail) :
    withoutPrefix (String.ofList (text ++ tail)) = String.ofList (tail.dropWhile isTrimmed) := by
  obtain ⟨word, blanks, tagged, q, -, hblanks, htagged, hq, hfirst⟩ :=
    @exists_first_subjectPrefix text tail hreply
  have hstay : First (star subjectTag) tagged tagged :=
    first_star_subjectTag (by rwa [htagged, beginsWithTag_blanks hblanks])
  obtain rfl : tagged = q := Option.some.inj (hstay.symm.trans hq)
  rw [withoutPrefix_of_first (by rwa [String.toList_ofList]), past, htagged,
    dropWhile_blanks hblanks]

lemma withoutPrefix_of_nil {subject : String}
    (h : subjectPrefix.ends ⟨[], subject.toList⟩ = []) : withoutPrefix subject = subject := by
  rw [withoutPrefix, h]

lemma trim_dropWhile (text : List Char) : trim (text.dropWhile isTrimmed) = trim text := by
  rw [trim, List.dropWhile_idempotent, trim]

variable {toLowerCase : String → String} {prefixes : List (List Char)} {subject : String}

lemma normalizeSubject_eq (h : withoutPrefix subject = String.ofList text) :
    normalizeSubject toLowerCase subject = toLowerCase (String.ofList (trim text)) := by
  rw [normalizeSubject, h, trimmed, String.toList_ofList]

lemma normalizeSubject_of_nil (h : subjectPrefix.ends ⟨[], subject.toList⟩ = []) :
    normalizeSubject toLowerCase subject =
      toLowerCase (String.ofList (trim subject.toList)) :=
  normalizeSubject_eq (by rw [withoutPrefix_of_nil h, String.ofList_toList])

/-- No prefix, or one before a subject that does not go on like it. -/
def IgnoredBefore (prefixes : List (List Char)) (subject : String) : Prop :=
  prefixes = [] ∨ prefixes.length = 1 ∧ Plain subject.toList

lemma normalizeSubject_prefixed (hprefixes : ∀ text ∈ prefixes, IsReplyPrefix text)
    (h : IgnoredBefore prefixes subject) :
    normalizeSubject toLowerCase (prefixed prefixes subject) =
      normalizeSubject toLowerCase subject := by
  rcases h with rfl | ⟨hone, hplain⟩
  · rw [prefixed, List.flatten_nil, List.nil_append, String.ofList_toList]
  · obtain ⟨text, rfl⟩ := List.length_eq_one_iff.mp hone
    have hcut := withoutPrefix_append (hprefixes text List.mem_cons_self) hplain.1
    rw [prefixed, List.flatten_singleton, normalizeSubject_eq hcut, trim_dropWhile,
      normalizeSubject_of_nil hplain.2]

/-! ### What a further prefix does -/

/-- What is used of `toLowerCase`: each character is mapped by itself, to at least one. -/
structure Lowers (toLowerCase : String → String) : Prop where
  length_append : ∀ a b,
    (toLowerCase (a ++ b)).length = (toLowerCase a).length + (toLowerCase b).length
  length_pos : ∀ a, a ≠ "" → 0 < (toLowerCase a).length

/-- A longer text has a longer lower case. -/
lemma Lowers.ne_of_append (h : Lowers toLowerCase) {v w text : List Char} (hv : v ≠ []) :
    toLowerCase (String.ofList (v ++ (w ++ text))) ≠ toLowerCase (String.ofList text) := by
  intro heq
  have hlength := congrArg String.length heq
  have hpos := h.length_pos (String.ofList v) (by
    intro hnil
    exact hv (by rw [← String.toList_ofList (l := v), hnil]; rfl))
  rw [String.ofList_append, String.ofList_append, h.length_append, h.length_append] at hlength
  omega

/-- A prefix that is matched shows something, and what begins with one begins with no tag. -/
lemma of_mem_ends_subjectPrefix (h : q ∈ subjectPrefix.ends p) :
    ¬ BeginsWithTag p.after ∧ ∃ m, Spans p m q ∧ ∃ c ∈ m, isTrimmed c = false := by
  rw [subjectPrefix_eq] at h
  obtain ⟨p', hstart, h⟩ := mem_ends_seq.1 h
  obtain ⟨x, hspaces, h⟩ := mem_ends_seq.1 h
  obtain ⟨y, hword, h⟩ := mem_ends_seq.1 h
  obtain ⟨n, hrest⟩ := spans_of_mem_ends h
  obtain rfl : p' = p := (mem_look.1 hstart).1
  obtain ⟨blanks, hblanks, hall⟩ := mem_ends_star_one hspaces
  obtain ⟨_, hname, hword⟩ := mem_ends_alts.1 hword
  obtain ⟨name, hmem, rfl⟩ := List.mem_map.mp hname
  obtain ⟨word, hlower, hword⟩ := mem_ends_caseless.1 hword
  obtain ⟨c, tail, rfl, halpha⟩ := exists_letter hmem hlower
  constructor
  · rw [hblanks.after, hword.after, beginsWithTag_blanks hall, List.cons_append]
    exact not_beginsWithTag_of_isAlpha halpha
  · exact ⟨_, spans_append hblanks (spans_append hword hrest), c, by simp,
      isTrimmed_of_isAlpha halpha⟩

/-- What is left of a subject is an end of it, and less of it if a prefix is matched. -/
lemma exists_withoutPrefix (subject : String) : ∃ m text, subject.toList = m ++ text ∧
    withoutPrefix subject = String.ofList text ∧
    (subjectPrefix.ends ⟨[], subject.toList⟩ ≠ [] → ∃ c ∈ m, isTrimmed c = false) := by
  by_cases hnil : subjectPrefix.ends ⟨[], subject.toList⟩ = []
  · refine ⟨[], subject.toList, rfl, ?_, absurd hnil⟩
    rw [withoutPrefix_of_nil hnil, String.ofList_toList]
  · obtain ⟨q, l, hl⟩ := List.exists_cons_of_ne_nil hnil
    have hmem : q ∈ subjectPrefix.ends ⟨[], subject.toList⟩ := by simp [hl]
    obtain ⟨-, m, hspans, hvisible⟩ := of_mem_ends_subjectPrefix hmem
    have hfirst : First subjectPrefix ⟨[], subject.toList⟩ q := by rw [First, hl, List.head?_cons]
    exact ⟨m, q.after, hspans.after, withoutPrefix_of_first hfirst, fun _ => hvisible⟩

/-- A repetition of tags takes a tag where one begins. -/
lemma visible_of_first_star (h : BeginsWithTag p.after) (hq : First (star subjectTag) p q) :
    ∃ m, Spans p m q ∧ ∃ c ∈ m, isTrimmed c = false := by
  obtain ⟨x, l, hl⟩ := List.exists_cons_of_ne_nil (beginsWithTag_iff.1 h)
  obtain ⟨tag, htag, hspans⟩ := mem_ends_subjectTag.1 (show x ∈ subjectTag.ends p by simp [hl])
  obtain ⟨c, hc, hshows⟩ := htag.visible
  have hlength := length_of_spans hspans
  have hpos := List.length_pos_of_mem hc
  obtain ⟨n, hn⟩ : ∃ n, p.after.length = n + 1 := ⟨p.after.length - 1, by omega⟩
  have hne : repeated subjectTag.ends n x ≠ [] := by cases n <;> simp [repeated]
  obtain ⟨y, l', hl'⟩ := List.exists_cons_of_ne_nil hne
  have hfilter : (x :: l).filter (fun q => q.after.length < p.after.length) =
      x :: l.filter fun q => q.after.length < p.after.length :=
    List.filter_cons_of_pos (decide_eq_true (by omega))
  -- the rounds behind the first tag come first
  obtain rfl : y = q := by
    rw [First, ends_star, hn, repeated_succ, hl, hfilter, List.flatMap_cons, hl', List.cons_append,
      List.cons_append, List.head?_cons] at hq
    exact Option.some.inj hq
  obtain ⟨m, hm⟩ := spans_of_mem_repeated
    (fun p q (hq : q ∈ subjectTag.ends p) => spans_of_mem_ends hq) (show y ∈ _ by rw [hl']; simp)
  exact ⟨tag ++ m, spans_append hspans hm, c, List.mem_append_left m hc, hshows⟩

/-- Before a subject that begins with a tag, a prefix takes the tag with it. -/
lemma normalizeSubject_before_tag (hlower : Lowers toLowerCase) {text : List Char}
    (hreply : IsReplyPrefix text) (htag : BeginsWithTag subject.toList) :
    normalizeSubject toLowerCase (String.ofList (text ++ subject.toList)) ≠
      normalizeSubject toLowerCase subject := by
  obtain ⟨word, blanks, tagged, q, -, hblanks, htagged, hq, hfirst⟩ :=
    @exists_first_subjectPrefix text subject.toList hreply
  obtain ⟨m, hspans, hvisible⟩ := visible_of_first_star
    (by rwa [htagged, beginsWithTag_blanks hblanks]) hq
  have hnil : subjectPrefix.ends ⟨[], subject.toList⟩ = [] := by
    refine List.eq_nil_iff_forall_not_mem.mpr fun q hq => ?_
    exact (of_mem_ends_subjectPrefix hq).1 htag
  have htrim : trim subject.toList = trim (m ++ q.after) := by
    rw [← hspans.after, htagged, trim, trim, dropWhile_blanks hblanks]
  obtain ⟨v, hv, hne⟩ := NumberText.exists_trim_append m q.after
  have hcut : withoutPrefix (String.ofList (text ++ subject.toList)) =
      String.ofList (q.after.dropWhile isTrimmed) :=
    withoutPrefix_of_first (by rwa [String.toList_ofList])
  rw [normalizeSubject_eq hcut, trim_dropWhile, normalizeSubject_of_nil hnil, htrim, hv]
  exact fun heq => hlower.ne_of_append (w := []) (hne hvisible) heq.symm

/-- Behind a prefix whatever shows stays, a prefix too. -/
lemma normalizeSubject_before_prefix (hlower : Lowers toLowerCase) {text m : List Char}
    (hreply : IsReplyPrefix text) (hno : ¬ BeginsWithTag (m ++ subject.toList))
    (hkept : (∃ c ∈ m, isTrimmed c = false) ∨ subjectPrefix.ends ⟨[], subject.toList⟩ ≠ []) :
    normalizeSubject toLowerCase (String.ofList (text ++ (m ++ subject.toList))) ≠
      normalizeSubject toLowerCase subject := by
  obtain ⟨m', rest, hsplit, hcut, hvisible⟩ := exists_withoutPrefix subject
  obtain ⟨v, hv, hne⟩ := NumberText.exists_trim_append m subject.toList
  obtain ⟨w, hw, hne'⟩ := NumberText.exists_trim_append m' rest
  rw [normalizeSubject_eq (withoutPrefix_append hreply hno), trim_dropWhile,
    normalizeSubject_eq hcut, hv, hsplit, hw]
  rcases hkept with hm | hends
  · exact hlower.ne_of_append (hne hm)
  · rw [← List.append_assoc]
    exact hlower.ne_of_append (w := []) fun hnil => hne' (hvisible hends)
      (List.append_eq_nil_iff.mp hnil).2

/-- **A prefix is ignored** only before a subject that does not begin like a part of one, and no
second one is. -/
theorem normalizeSubject_prefixed_iff (hlower : Lowers toLowerCase)
    (hprefixes : ∀ text ∈ prefixes, IsReplyPrefix text) :
    normalizeSubject toLowerCase (prefixed prefixes subject) =
      normalizeSubject toLowerCase subject ↔ IgnoredBefore prefixes subject := by
  refine ⟨fun heq => ?_, normalizeSubject_prefixed hprefixes⟩
  by_contra hignored
  cases prefixes with
  | nil => exact hignored (.inl rfl)
  | cons text more =>
    obtain ⟨hreply, hmore⟩ := List.forall_mem_cons.mp hprefixes
    rw [prefixed, List.flatten_cons, List.append_assoc] at heq
    cases more with
    | nil =>
      by_cases htag : BeginsWithTag subject.toList
      · exact normalizeSubject_before_tag hlower hreply htag heq
      · exact normalizeSubject_before_prefix (m := []) hlower hreply htag
          (.inr fun hnil => hignored (.inr ⟨rfl, htag, hnil⟩)) heq
    | cons second more =>
      -- what stands behind the first prefix begins with the word of the second
      obtain ⟨word, blanks, rfl, ⟨name, hname, hword⟩, -⟩ := hmore second List.mem_cons_self
      obtain ⟨c, tail, rfl, halpha⟩ := exists_letter hname hword
      exact normalizeSubject_before_prefix hlower hreply (not_beginsWithTag_of_isAlpha halpha)
        (.inl ⟨c, by simp, isTrimmed_of_isAlpha halpha⟩) heq

/-! ### Messages without links -/

/-- A listed message that is no answer to a listed message, to which none is one, and which is on no
mailing list. -/
structure LinkLess (messages : List ThreadMessage) (message : ThreadMessage) : Prop where
  mem : message ∈ messages
  unique : ∀ other ∈ messages, other.messageId = message.messageId → other = message
  listId : message.listId = none
  parent : parentIdOf message (knownIds messages) = none
  child : ∀ other ∈ messages, parentIdOf other (knownIds messages) ≠ some message.messageId

variable {fuel : ℕ} {messages : List ThreadMessage} {message message' : ThreadMessage}
  {threads : List Thread} {root id : String}

/-- A climb that ends elsewhere than where it begins ends at some message's parent. -/
lemma isParent_of_rootOf (h : rootOf (parents messages) fuel id = some root) (hne : id ≠ root) :
    ∃ below, IsParent messages below root := by
  induction fuel generalizing id with
  | zero => cases h
  | succ fuel ih =>
    cases hnext : (parents messages).get id with
    | none =>
      rw [rootOf, Ancestry.top_of_none hnext, Option.some.injEq] at h
      exact absurd h hne
    | some next =>
      rw [rootOf, Ancestry.top_of_some hnext] at h
      by_cases hroot : next = root
      · exact ⟨id, hroot ▸ (get_parents id next).mp hnext⟩
      · exact ih h hroot

lemma LinkLess.rootOf_eq (h : LinkLess messages message)
    (hsome : (rootOf (parents messages) fuel message.messageId).isSome) :
    rootOf (parents messages) fuel message.messageId = some message.messageId := by
  obtain ⟨root, hroot⟩ := Option.isSome_iff_exists.mp hsome
  have hnone : (parents messages).get message.messageId = none := by
    rw [Option.eq_none_iff_forall_ne_some]
    intro parentId hparent
    obtain ⟨earlier, other, later, rfl, hid, hother, -⟩ := (get_parents _ _).mp hparent
    obtain rfl := h.unique other (by simp) hid
    rw [h.parent] at hother
    cases hother
  obtain ⟨fuel, rfl⟩ : ∃ n, fuel = n + 1 := by
    cases fuel with
    | zero => cases hroot
    | succ n => exact ⟨n, rfl⟩
  exact Ancestry.top_of_none hnone

/-- It is alone in its tree. -/
lemma LinkLess.eq_of_mem_treeOf (h : LinkLess messages message) {other : ThreadMessage}
    (hother : other ∈ treeOf fuel messages message.messageId) : other = message := by
  obtain ⟨hmem, hroot⟩ := List.mem_filter.mp hother
  refine h.unique other hmem ?_
  by_contra hne
  obtain ⟨below, hparent⟩ := isParent_of_rootOf (of_decide_eq_true hroot) hne
  obtain ⟨earlier, child, later, rfl, -, hchild, -⟩ := hparent
  exact h.child child (by simp) hchild

lemma findSome?_of_forall_eq {α β : Type*} {l : List α} {a : α} (f : α → Option β)
    (hmem : a ∈ l) (h : ∀ b ∈ l, b = a) : l.findSome? f = f a := by
  rw [List.eq_replicate_of_mem h]
  exact List.findSome?_replicate_of_pos (List.length_pos_of_mem hmem)

/-- The same addresses take part in both. -/
def SameParticipants (toLowerCase : String → String) (message message' : ThreadMessage) : Prop :=
  ∀ a, a ∈ (participantsOf toLowerCase message).elements ↔
    a ∈ (participantsOf toLowerCase message').elements

/-- Of two trees of one message each the participants are those of the messages. -/
lemma participantKeyOf_congr {group group' : Group} (hmem : message ∈ group.members)
    (hall : ∀ other ∈ group.members, other = message) (hmem' : message' ∈ group'.members)
    (hall' : ∀ other ∈ group'.members, other = message')
    (hsame : SameParticipants toLowerCase message message') :
    participantKeyOf toLowerCase group = participantKeyOf toLowerCase group' := by
  have hone : ∀ {members : List ThreadMessage} {message : ThreadMessage} (a : String),
      message ∈ members → (∀ other ∈ members, other = message) →
        ((∃ member ∈ members, a ∈ (participantsOf toLowerCase member).elements) ↔
          a ∈ (participantsOf toLowerCase message).elements) := by
    intro members message a hmem hall
    constructor
    · rintro ⟨member, hmember, ha⟩
      rwa [hall member hmember] at ha
    · exact fun ha => ⟨message, hmem, ha⟩
  unfold participantKeyOf
  refine congrArg stringifyTexts (sorted_of_perm ?_)
  refine (List.perm_ext_iff_of_nodup (OrderedSet.nodup _) (OrderedSet.nodup _)).mpr fun a => ?_
  rw [mem_foldl_insertAll, mem_foldl_insertAll, hone a hmem hall, hone a hmem' hall', hsame a]

/-- The key that a message without links is merged under. -/
lemma LinkLess.mergeKeyOf_eq (h : LinkLess messages message)
    (hroot : rootOf (parents messages) fuel message.messageId = some message.messageId)
    (hsubject : message.subject = some subject) :
    mergeKeyOf toLowerCase (groupOf (treeOf fuel messages message.messageId)) =
      if normalizeSubject toLowerCase subject = "" then none
      else some ("subject:" ++ normalizeSubject toLowerCase subject ++ "\x00participants:" ++
        participantKeyOf toLowerCase (groupOf (treeOf fuel messages message.messageId))) := by
  have hmem : message ∈ treeOf fuel messages message.messageId :=
    List.mem_filter.mpr ⟨h.mem, decide_eq_true hroot⟩
  have hall : ∀ other ∈ treeOf fuel messages message.messageId, other = message :=
    fun other => h.eq_of_mem_treeOf
  have hlist : (groupOf (treeOf fuel messages message.messageId)).listId = none := by
    rw [groupOf_eq]
    exact (findSome?_of_forall_eq _ hmem hall).trans h.listId
  have hfirst : (groupOf (treeOf fuel messages message.messageId)).subject = some subject := by
    rw [groupOf_eq]
    exact (findSome?_of_forall_eq _ hmem hall).trans hsubject
  rw [mergeKeyOf, hlist, hfirst]
  rfl

/-- **Messages without links** of the same participants are in one thread exactly when their
normalized subjects are one and not empty. -/
theorem sameThread_linkLess_iff {subject' : String}
    (h : deriveThreads toLowerCase fuel messages = some threads)
    (hlink : LinkLess messages message) (hlink' : LinkLess messages message')
    (hne : message.messageId ≠ message'.messageId)
    (hsame : SameParticipants toLowerCase message message')
    (hsubject : message.subject = some subject) (hsubject' : message'.subject = some subject') :
    SameThread threads message.messageId message'.messageId ↔
      normalizeSubject toLowerCase subject = normalizeSubject toLowerCase subject' ∧
        normalizeSubject toLowerCase subject ≠ "" := by
  have hknown : message.messageId ∈ knownIds messages := List.mem_map_of_mem hlink.mem
  have hknown' : message'.messageId ∈ knownIds messages := List.mem_map_of_mem hlink'.mem
  have hroot := hlink.rootOf_eq (rootOf_isSome_of_derived h _ hknown)
  have hroot' := hlink'.rootOf_eq (rootOf_isSome_of_derived h _ hknown')
  have hparticipants : participantKeyOf toLowerCase
      (groupOf (treeOf fuel messages message.messageId)) = participantKeyOf toLowerCase
        (groupOf (treeOf fuel messages message'.messageId)) := by
    rw [groupOf_eq, groupOf_eq]
    exact participantKeyOf_congr (List.mem_filter.mpr ⟨hlink.mem, decide_eq_true hroot⟩)
      (fun other => hlink.eq_of_mem_treeOf)
      (List.mem_filter.mpr ⟨hlink'.mem, decide_eq_true hroot'⟩)
      (fun other => hlink'.eq_of_mem_treeOf) hsame
  rw [sameThread_iff h hknown hknown' hroot hroot', markOf, markOf,
    hlink.mergeKeyOf_eq hroot hsubject, hlink'.mergeKeyOf_eq hroot' hsubject', hparticipants]
  by_cases hblank : normalizeSubject toLowerCase subject = "" <;>
    by_cases hblank' : normalizeSubject toLowerCase subject' = ""
  · simp [hblank, hblank', hne]
  · simp [hblank, hblank']
  · simp [hblank, hblank']
  · simp [hblank, hblank']

/-- **A prefix does not split a conversation**: before a subject that does not begin like a part of
one it is ignored, and messages without links whose subjects differ in it only are in one thread,
unless nothing is left of the subject. -/
theorem prefixes_ignored (toLowerCase : String → String) (prefixes : List (List Char))
    (subject : String) (hprefixes : ∀ text ∈ prefixes, IsReplyPrefix text)
    (hignored : IgnoredBefore prefixes subject) :
    normalizeSubject toLowerCase (prefixed prefixes subject) =
        normalizeSubject toLowerCase subject ∧
      ∀ fuel messages threads message message',
        deriveThreads toLowerCase fuel messages = some threads →
        LinkLess messages message → LinkLess messages message' →
        SameParticipants toLowerCase message message' → message.subject = some subject →
        message'.subject = some (prefixed prefixes subject) →
        normalizeSubject toLowerCase subject ≠ "" →
          SameThread threads message.messageId message'.messageId := by
  have hsubject := @normalizeSubject_prefixed toLowerCase prefixes subject hprefixes hignored
  refine ⟨hsubject, ?_⟩
  intro fuel messages threads message message' h hlink hlink' hsame hfirst hsecond hne
  by_cases hid : message.messageId = message'.messageId
  · obtain ⟨thread, hthread, hin⟩ := exists_thread h (List.mem_map_of_mem hlink.mem)
    exact ⟨thread, hthread, hin, hid ▸ hin⟩
  · rw [sameThread_linkLess_iff h hlink hlink' hid hsame hfirst hsecond]
    exact ⟨hsubject.symm, hne⟩

/-- A mail without links. -/
def mailOf (messageId subject : String) : ThreadMessage where
  messageId := messageId
  fromAddress := "ana@hub"
  toAddresses := ["scout@hub"]
  cc := none
  subject := some subject
  listId := none
  inReplyTo := none
  references := none

lemma linkLess_mailOf {messageId subject : String} {messages : List ThreadMessage}
    (hmem : mailOf messageId subject ∈ messages) (hids : (knownIds messages).Nodup)
    (hnone : ∀ other ∈ messages, parentIdOf other (knownIds messages) = none) :
    LinkLess messages (mailOf messageId subject) where
  mem := hmem
  unique other hother hid := List.inj_on_of_nodup_map hids hother hmem hid
  listId := rfl
  parent := hnone _ hmem
  child other hother := by
    rw [hnone other hother]
    exact (Option.some_ne_none _).symm

theorem prefixes_ignored_hello : ∃ threads,
    deriveThreads String.toLower 3 [mailOf "a" "Hello", mailOf "b" "RE:  Hello"] = some threads ∧
      SameThread threads "a" "b" := by
  have hprefixes : ∀ text ∈ ["RE:  ".toList], IsReplyPrefix text := by
    intro text htext
    obtain rfl := List.mem_singleton.mp htext
    exact ⟨['R', 'E'], [' ', ' '], rfl, ⟨"re", by decide, by decide⟩, by decide⟩
  have hplain : Plain "Hello".toList :=
    ⟨@not_beginsWithTag_of_isAlpha "ello".toList 'H' (by decide), by decide +kernel⟩
  have hsome : (deriveThreads String.toLower 3
      [mailOf "a" "Hello", mailOf "b" "RE:  Hello"]).isSome := by
    rw [isSome_deriveThreads]
    decide
  obtain ⟨threads, h⟩ := Option.isSome_iff_exists.mp hsome
  have hlink := @linkLess_mailOf "a" "Hello" [mailOf "a" "Hello", mailOf "b" "RE:  Hello"]
    (by simp) (by decide) (by decide)
  have hlink' := @linkLess_mailOf "b" "RE:  Hello" [mailOf "a" "Hello", mailOf "b" "RE:  Hello"]
    (by simp) (by decide) (by decide)
  exact ⟨threads, h, (prefixes_ignored String.toLower ["RE:  ".toList] "Hello" hprefixes
    (.inr ⟨rfl, hplain⟩)).2 3 _ threads _ _ h hlink hlink' (fun _ => .rfl) rfl rfl
      (by decide +kernel)⟩

/-- **A second prefix stays**, and a subject of which nothing is left joins no messages. -/
theorem prefixes_not_ignored :
    normalizeSubject String.toLower (prefixed ["Re: ".toList, "Re: ".toList] "Hello") ≠
        normalizeSubject String.toLower "Hello" ∧
      deriveThreads String.toLower 3 [mailOf "a" "", mailOf "b" (prefixed ["Re:".toList] "")] =
        some [⟨"message:a", "a", ["a"]⟩, ⟨"message:b", "b", ["b"]⟩] ∧
      ¬ SameThread [⟨"message:a", "a", ["a"]⟩, ⟨"message:b", "b", ["b"]⟩] "a" "b" := by
  refine ⟨by decide +kernel, by decide +kernel, ?_⟩
  rintro ⟨thread, hthread, hin, hin'⟩
  simp only [List.mem_cons, List.not_mem_nil, or_false] at hthread
  rcases hthread with rfl | rfl
  · exact absurd hin' (by decide)
  · exact absurd hin (by decide)

end Workbench.Web.Threads
