import Workbench.Lib.Replaced
import Workbench.ErrorSink.AssignedSecrets

/-!
Redacting a redacted text.

A pass leaves no match of its own pattern and none of a pattern before it. A match in what a pass
leaves stands in a stretch between two markers, and it is a match in the text before the pass as
well: what has been dropped begins with no space, and for all patterns behind the first two the
ends of the stretch were no less a word boundary before.
-/

namespace Workbench.ErrorSink

open Workbench.Lib Workbench.Lib.Regex Workbench.Lib.Mask

def brackets : List Char := ['[', ']']

/-- A stretch of two texts that ends at a bracket in the second, and not at a space in the first
where it ends at none in the second. -/
structure Joined (looks : Bool) (old new : Place) (shared : List Char) : Prop extends
    Stretch brackets looks old new shared where
  solid : new.after.head?.any (!isSpace ·) → old.after.head?.any (!isSpace ·)

/-- The pattern matches in a stretch only what it matches there in the text before. -/
def Local (looks : Bool) (m : Mask) : Prop := ∀ {old new : Place} {shared u v : List Char},
  Joined looks old new shared → u ++ v = shared → m.find (old.around u v) = none →
    m.find (new.around u v) = none

/-- What the pattern drops begins with no space. If patterns look at word boundaries, it also
stands behind no word character, and one of its end and of what follows it is no word character. -/
structure Edged (looks : Bool) (m : Mask) : Prop where
  solid {l k d r} (made : m.Matches l k d r) : d.head?.any (!isSpace ·)
  apart {l k d r} (made : m.Matches l k d r) (hlooks : looks) :
    (k.reverse ++ l).head?.any isWord = false
  ends {l k d r} (made : m.Matches l k d r) (hlooks : looks) (hr : r.head?.any isWord) :
    (d.reverse ++ (k.reverse ++ l)).head?.any isWord = false

/-- Where the pattern has kept something in front of a marker, it matches nothing more. -/
def Settled (m : Mask) : Prop := ∀ {b a v : List Char}, v ≠ [] → m.Kept v →
  (∀ c ∈ a.head?, c ∈ brackets) → m.find ⟨b, v ++ a⟩ = none

/-- The pattern matches nothing in a marker. -/
def Quiet (m : Mask) : Prop := ∀ i < marker.length, ∀ b ∈ [[], ['a']],
  m.find ⟨(marker.take i).reverse ++ b, marker.drop i⟩ = none

variable {looks : Bool} {m n : Mask} {old new p : Place} {shared u v t l k d : List Char}

/-! ### Stretches between markers -/

lemma Joined.weaken (h : Joined true old new shared) (looks : Bool) :
    Joined looks old new shared where
  stopped := h.stopped
  opens _ := h.opens rfl
  closes _ := h.closes rfl
  solid := h.solid

lemma marker_eq : marker = '[' :: ("redacted".toList ++ [']']) := rfl

lemma not_isWord_of_bracket {o : Option Char} (ho : ∀ c ∈ o, c ∈ brackets) :
    o.any isWord = false := by
  have hall : ∀ c ∈ brackets, isWord c = false := by decide
  cases o with
  | none => rfl
  | some c => exact hall c (ho c rfl)

/-- A place behind no word character is a word boundary when a word character follows. -/
lemma atBoundary_iff {b a : List Char} (hb : b.head?.any isWord = false) :
    atBoundary ⟨b, a⟩ ↔ a.head?.any isWord := by simp [atBoundary, hb]

/-- A place in front of no word character is one when a word character stands before it. -/
lemma atBoundary_iff' {b a : List Char} (ha : a.head?.any isWord = false) :
    atBoundary ⟨b, a⟩ ↔ b.head?.any isWord := by simp [atBoundary, ha]

lemma not_isWord_of_opens {b b' : List Char} (h : Opens n marker t b b') :
    b'.head?.any isWord = false := by
  cases h with
  | start => rfl
  | dropped made =>
    have hlast : isWord ']' = false := by decide
    simp [marker_eq, hlast]

lemma bracket_of_closes {b a a' : List Char} (h : Closes n marker b a a') :
    ∀ c ∈ a'.head?, c ∈ brackets := by
  cases h with
  | finish => simp
  | dropped kept made => simp [marker_eq, brackets]

/-- Where a word character begins a stretch, a word boundary stood there before. -/
lemma atBoundary_of_opens {b b' a : List Char} {c : Char} (h : Edged looks n) (hlooks : looks)
    (hopens : Opens n marker (c :: a) b b') (hc : isWord c) : atBoundary ⟨b, c :: a⟩ := by
  refine (atBoundary_iff ?_).mpr hc
  cases hopens with
  | start => rfl
  | dropped made => simpa using h.ends made hlooks hc

/-- In front of a marker stands no word character. -/
lemma not_isWord_of_closes {b b' a a' : List Char} (h : Edged looks n) (hlooks : looks)
    (hb' : b'.head?.any isWord = false) (hcloses : Closes n marker (shared.reverse ++ b) a a') :
    a.head? = a'.head? ∨ (shared.reverse ++ b').head?.any isWord = false := by
  cases hcloses with
  | finish => exact .inl rfl
  | dropped kept made =>
    have hapart := h.apart made hlooks
    rw [← kept] at hapart
    rcases List.eq_nil_or_concat shared with rfl | ⟨s, c, rfl⟩
    · exact .inr hb'
    · exact .inr (by simpa using hapart)

/-- A stretch of the text that a pass leaves. -/
lemma joined_of_replaced (h : Edged looks n)
    (hopens : Opens n marker (shared ++ old.after) old.before new.before)
    (hcloses : Closes n marker (shared.reverse ++ old.before) old.after new.after) :
    Joined looks old new shared := by
  have hb' := not_isWord_of_opens hopens
  have ha' := bracket_of_closes hcloses
  refine ⟨⟨ha', fun hlooks hb => ?_, fun hlooks => ?_⟩, fun hsolid => ?_⟩
  · -- the word character that follows stands in the stretch
    have hword := (atBoundary_iff hb').mp hb
    rcases shared with _ | ⟨c, s⟩
    · rw [List.nil_append, not_isWord_of_bracket ha'] at hword
      cases hword
    · exact atBoundary_of_opens h hlooks hopens hword
  · refine (not_isWord_of_closes h hlooks hb' hcloses).imp_right fun hnot hb => ?_
    have hword := (atBoundary_iff' (not_isWord_of_bracket ha')).mp hb
    rw [hnot] at hword
    cases hword
  · generalize old.before = b, old.after = a, new.after = a' at hcloses hsolid ⊢
    cases hcloses with
    | finish => simp at hsolid
    | dropped kept made =>
      obtain ⟨c, hc, hspace⟩ := (Option.any_eq_true _ _).mp (h.solid made)
      simp [List.head?_append, hc, hspace]

/-! ### Passes -/

/-- No match begins in a marker, whatever stands around it. -/
lemma find_marked (hlocal : Local looks m) (hquiet : Quiet m) {x y r : List Char}
    (hparts : marker = x ++ y) (hy : y ≠ []) : m.find ⟨x.reverse ++ l, y ++ r⟩ = none := by
  have hplace : ∀ b ∈ [[], ['a']], m.find ⟨x.reverse ++ b, y⟩ = none := by
    intro b hb
    have hlen : x.length < marker.length := by
      rw [hparts, List.length_append]
      have := List.length_pos_iff.mpr hy
      omega
    have hfind := hquiet x.length hlen b hb
    rwa [hparts, List.take_left, List.drop_left] at hfind
  rcases x with _ | ⟨c, x⟩
  · rw [List.nil_append] at hparts
    subst hparts
    obtain ⟨b, hb, hsame⟩ : ∃ b ∈ [[], ['a']], b.head?.any isWord = l.head?.any isWord := by
      cases hl : l.head?.any isWord
      · exact ⟨[], by simp, rfl⟩
      · exact ⟨['a'], by simp, rfl⟩
    have hjoined : Joined true ⟨b, marker⟩ ⟨l, marker ++ r⟩ [] := by
      refine ⟨⟨by simp [marker_eq, brackets], fun _ h => ?_, fun _ => .inl ?_⟩, fun h => ?_⟩
      · simpa [Place.around, atBoundary, hsame, marker_eq] using h
      · simp [marker_eq]
      · simpa [marker_eq] using h
    exact hlocal (hjoined.weaken looks) (u := []) (v := []) rfl (hplace b hb)
  · obtain ⟨y, z, rfl⟩ : ∃ s z, y = s ++ [z] :=
      ⟨y.dropLast, y.getLast hy, (List.dropLast_append_getLast hy).symm⟩
    have hends : '[' :: ("redacted".toList ++ [']']) = c :: ((x ++ y) ++ [z]) := by
      rw [← marker_eq, List.append_assoc]
      exact hparts
    obtain ⟨rfl, htail⟩ := List.cons.inj hends
    obtain ⟨hinner, hz⟩ := List.append_inj' htail rfl
    obtain rfl : z = ']' := by simpa using hz.symm
    have hjoined : Joined true ⟨['['], [']']⟩ ⟨'[' :: l, ']' :: r⟩ "redacted".toList :=
      ⟨⟨by simp [brackets], fun _ h => h, fun _ => .inl rfl⟩, fun h => h⟩
    have hfind := hlocal (hjoined.weaken looks) hinner.symm
      (by simpa [Place.around] using hplace [] (by simp))
    simpa [Place.around] using hfind

/-- **A pass** leaves no match of a pattern that had none. -/
theorem free_of_free (hlocal : Local looks m) (hquiet : Quiet m) (hedged : Edged looks n)
    (hfree : m.Free t) : m.Free (n.replaceAll id marker t) := by
  refine free_replaceAll fun p hp => ?_
  cases hp with
  | marked hparts hy => exact find_marked hlocal hquiet hparts hy
  | @shared old new u v hv hstands hopens hcloses hmissed =>
    rw [← List.append_assoc] at hopens
    refine hlocal (joined_of_replaced hedged hopens hcloses) rfl ?_
    have hplace := hfree (old.before.reverse ++ u) (v ++ old.after) (by simp [hstands])
    simpa [Place.around] using hplace

/-- **A pass** leaves no match of its own pattern. -/
theorem free_self (hlocal : Local looks n) (hquiet : Quiet n) (hedged : Edged looks n)
    (hsettled : Settled n) : n.Free (n.replaceAll id marker t) := by
  refine free_replaceAll fun p hp => ?_
  cases hp with
  | marked hparts hy => exact find_marked hlocal hquiet hparts hy
  | @shared old new u v hv hstands hopens hcloses hmissed =>
    rw [← List.append_assoc] at hopens
    have hjoined := joined_of_replaced hedged hopens hcloses
    rcases hmissed with hnone | hkept
    · exact hlocal hjoined rfl hnone
    · exact hsettled hv hkept hjoined.stopped

/-! ### Patterns of which nothing is kept -/

variable {r s : Regex} {hr : r.nullable = false} {hs : (seq boundary s).nullable = false}

lemma find_whole : (whole r hr).find p = none ↔ r.ends p = [] := by
  simp [find, whole, Regex.ends]

lemma kept_of_whole {rest : List Char} (h : (whole r hr).Matches l k d rest) : k = [] := by
  have hbefore := congrArg Place.before (mem_ends_empty.1 h.first.1)
  simpa using hbefore

lemma settled_whole : Settled (whole r hr) := by
  rintro b a v hv ⟨l, k, d, rest, hmade⟩ -
  have hnil := kept_of_whole hmade
  simp [hv] at hnil

/-- A whole match that begins with a word character begins with no space. -/
lemma head_of_whole (hstarts : Starts r) {rest : List Char}
    (h : (whole r hr).Matches l k d rest) : d.head?.any isWord := by
  have hword := hstarts _ _ (List.mem_of_head? h.first.2)
  obtain ⟨c, d, rfl⟩ := List.exists_cons_of_ne_nil h.drops_ne_nil
  exact hword

lemma solid_of_isWord {o : Option Char} (h : o.any isWord) : o.any (!isSpace ·) := by
  obtain ⟨c, rfl, hc⟩ := (Option.any_eq_true _ _).mp h
  simpa using isSpace_of_isWord hc

lemma edged_whole (hstarts : Starts r) : Edged false (whole r hr) where
  solid made := solid_of_isWord (head_of_whole hstarts made)
  apart _ hlooks := by cases hlooks
  ends _ hlooks := by cases hlooks

lemma edged_closed (hstarts : Starts s) (hclosed : (seq boundary s).closed) :
    Edged true (whole (seq boundary s) hs) where
  solid made := solid_of_isWord (head_of_whole (starts_boundary hstarts) made)
  apart {l k d rest} made _ := by
    obtain ⟨x, hx, -⟩ := mem_ends_seq.1 (List.mem_of_head? made.first.2)
    have hb := (mem_ends_boundary.1 hx).2
    have hword := head_of_whole (starts_boundary hstarts) made
    obtain ⟨c, d, rfl⟩ := List.exists_cons_of_ne_nil made.drops_ne_nil
    have hc : isWord c := hword
    simpa [atBoundary, hc] using hb
  ends {l k d rest} made _ hrest := by
    have hb := atBoundary_of_closed hclosed (List.mem_of_head? made.first.2)
    simpa [atBoundary, hrest] using hb

/-- A pattern that ends at a word boundary. -/
lemma local_closed (hclosed : r.closed) (hstays : r.stays brackets true) :
    Local true (whole r hr) := by
  intro old new shared u v hjoined huv hnone
  rw [find_whole] at hnone ⊢
  refine List.eq_nil_iff_forall_not_mem.mpr fun q hq => ?_
  obtain ⟨w, v, rfl, rfl, hold⟩ := hjoined.agrees hstays huv hq
  have hsees := hjoined.sees rfl (by rw [← huv]; simp) (atBoundary_of_closed hclosed hq)
  have hmem := hold fun _ => hsees
  simp [hnone] at hmem

/-- A pattern that looks at nothing, and at last takes what is no space. -/
lemma local_solid (rs : List Regex) (hstays : (seqs rs).stays brackets false)
    {h : (seqs (rs ++ [plus (one (!isSpace ·))])).nullable = false} :
    Local false (whole (seqs (rs ++ [plus (one (!isSpace ·))])) h) := by
  intro old new shared u v hjoined huv hnone
  rw [find_whole] at hnone ⊢
  refine List.eq_nil_iff_forall_not_mem.mpr fun q hq => ?_
  obtain ⟨x, hx, hq⟩ := (mem_ends_seqs_append rs).mp hq
  obtain ⟨w, v, rfl, rfl, hold⟩ := hjoined.toStretch.agrees hstays huv hx
  have hsolid : (old.around (u ++ w) v).after.head?.any (!isSpace ·) := by
    have hnew : (new.around (u ++ w) v).after.head?.any (!isSpace ·) := by
      obtain ⟨y, hy, -⟩ := mem_ends_seq.1 hq
      by_contra hno
      rw [Bool.not_eq_true, ← ends_plus_one_eq_nil] at hno
      simp [hno] at hy
    rcases v with _ | ⟨c, v⟩
    · exact hjoined.solid hnew
    · exact hnew
  have hsome : (plus (one (!isSpace ·))).ends (old.around (u ++ w) v) ≠ [] := fun hnil => by
    rw [ends_plus_one_eq_nil, hsolid] at hnil
    cases hnil
  obtain ⟨y, hy⟩ := List.exists_mem_of_ne_nil _ hsome
  have hy' : y ∈ (seqs [plus (one (!isSpace ·))]).ends (old.around (u ++ w) v) :=
    mem_ends_seq.2 ⟨y, hy, mem_ends_empty.2 rfl⟩
  have hmem := (mem_ends_seqs_append rs).mpr ⟨_, hold (by simp), hy'⟩
  simp [hnone] at hmem

/-! ### Assignments -/

lemma nullable_assignmentValue : assignmentValue.nullable = false := rfl

/-- Of an assignment the name and the separator are kept. -/
def assignmentOf (front name : Regex) : Mask :=
  ⟨seqs [front, name, separator], assignmentValue, nullable_assignmentValue⟩

/-- A name, then `=` and spaces. -/
def Labels (k : List Char) : Prop :=
  ∃ name right, k = name ++ '=' :: right ∧ '=' ∉ name ∧ ∀ c ∈ right, isSpace c

variable {front name : Regex}

lemma find_assigned : (assignmentOf front name).find p = none ↔
    ∀ q ∈ (seqs [front, name, separator]).ends p, q.after.head?.any isValueChar = false := by
  rw [find_eq_none]
  exact forall₂_congr fun q _ => ends_plus_one_eq_nil

lemma labels_of_mem_ends {q : Place} (hstays : (seqs [front, name]).stays ['='] true)
    (hq : q ∈ (seqs [front, name, separator]).ends p) (hk : Spans p k q) : Labels k := by
  obtain ⟨x, hx, hq⟩ := (mem_ends_seqs_append [front, name]).mp hq
  obtain ⟨y, hy, hend⟩ := mem_ends_seq.1 hq
  obtain rfl := mem_ends_empty.1 hend
  obtain ⟨n, hn⟩ := spans_of_mem_ends hx
  obtain ⟨left, right, hsep, hleft, hright⟩ := mem_ends_separator hy
  have hname : '=' ∉ n := not_mem_of_stays hstays hx hn (by simp)
  refine ⟨n ++ left, right, ?_, ?_, hright⟩
  · rw [spans_unique hk (spans_append hn hsep), List.append_assoc]
  · rw [List.mem_append, not_or]
    refine ⟨hname, fun hm => ?_⟩
    have hequals : isSpace '=' = false := by decide
    simp [hleft '=' hm] at hequals

lemma labels_of_matches {rest : List Char} (hstays : (seqs [front, name]).stays ['='] true)
    (h : (assignmentOf front name).Matches l k d rest) : Labels k :=
  labels_of_mem_ends hstays h.first.1 ⟨by simp, rfl⟩

/-- No value begins behind a part of a label that ends with a separator. -/
lemma Labels.not_value {w v : List Char} {c : Char} (hlabel : Labels (k ++ (w ++ c :: v)))
    (hw : Labels w) : isValueChar c = false := by
  obtain ⟨n, right, heq, hn, hright⟩ := hlabel
  obtain ⟨n', right', rfl, -, -⟩ := hw
  have hmem : c ∈ right := by
    have heq' : (k ++ n') ++ '=' :: (right' ++ c :: v) = n ++ '=' :: right := by
      rw [← heq]
      simp
    rcases List.append_eq_append_iff.mp heq' with ⟨z, rfl, hz⟩ | ⟨z, -, hz⟩
    · rcases z with _ | ⟨e, z⟩
      · obtain ⟨-, rfl⟩ := List.cons.inj hz
        simp
      · obtain ⟨rfl, -⟩ := List.cons.inj hz
        simp at hn
    · rcases z with _ | ⟨e, z⟩
      · obtain ⟨-, rfl⟩ := List.cons.inj hz
        simp
      · obtain ⟨-, rfl⟩ := List.cons.inj hz
        simp
  by_contra hvalue
  have hspace := isSpace_of_isValueChar (by simpa using hvalue)
  simp [hright c hmem] at hspace

lemma edged_assigned (hstays : (seqs [front, name]).stays ['='] true) :
    Edged true (assignmentOf front name) where
  solid {l k d rest} made := by
    have hvalue := (first_plus_one made.first.2).1
    obtain ⟨c, d, rfl⟩ := List.exists_cons_of_ne_nil made.drops_ne_nil
    have hc : isValueChar c := hvalue
    simpa using isSpace_of_isValueChar hc
  apart {l k d rest} made _ := by
    obtain ⟨n, right, rfl, -, hright⟩ := labels_of_matches hstays made
    rcases List.eq_nil_or_concat right with rfl | ⟨right, c, rfl⟩
    · have hequals : isWord '=' = false := by decide
      simp [hequals]
    · by_contra hword
      have hc : isWord c := by simpa using hword
      have hspace := hright c (by simp)
      simp [isSpace_of_isWord hc] at hspace
  ends {l k d rest} made _ hrest := by
    have hvalue := (first_plus_one made.first.2).2
    obtain ⟨c, hc, hword⟩ := (Option.any_eq_true _ _).mp hrest
    simp [hc, isValueChar, hword] at hvalue

/-- A label in a stretch with a value behind it. -/
lemma assigned_of_stretch {q : Place} (h : Stretch brackets true old new shared)
    (hstays : (seqs [front, name, separator]).stays brackets true) (huv : u ++ v = shared)
    (hq : q ∈ (seqs [front, name, separator]).ends (new.around u v))
    (hvalue : q.after.head?.any isValueChar) : ∃ w c v', v = w ++ c :: v' ∧ isValueChar c ∧
      q = new.around (u ++ w) (c :: v') ∧
      old.around (u ++ w) (c :: v') ∈ (seqs [front, name, separator]).ends (old.around u v) := by
  obtain ⟨w, v', rfl, rfl, hold⟩ := h.agrees hstays huv hq
  rcases v' with _ | ⟨c, v'⟩
  · -- a bracket is no value
    obtain ⟨c, hc, hv⟩ := (Option.any_eq_true _ _).mp hvalue
    have hall : ∀ c ∈ brackets, isValueChar c = false := by decide
    simp [hall c (h.stopped c hc)] at hv
  · exact ⟨w, c, v', rfl, hvalue, rfl, hold fun _ => .inl (by simp)⟩

lemma local_assigned (hstays : (seqs [front, name, separator]).stays brackets true) :
    Local true (assignmentOf front name) := by
  intro old new shared u v hjoined huv hnone
  rw [find_assigned] at hnone ⊢
  intro q hq
  by_contra hvalue
  obtain ⟨w, c, v', rfl, hc, -, hmem⟩ :=
    assigned_of_stretch hjoined.toStretch hstays huv hq (by simpa using hvalue)
  have hnot := hnone _ hmem
  simp [Place.around, hc] at hnot

lemma settled_assigned (hstays : (seqs [front, name, separator]).stays brackets true)
    (hname : (seqs [front, name]).stays ['='] true) : Settled (assignmentOf front name) := by
  rintro b a v hv ⟨l, k, d, rest, hmade⟩ ha
  rw [find_assigned]
  intro q hq
  by_contra hvalue
  have hstretch : Stretch brackets true ⟨b, a⟩ ⟨b, a⟩ v := .refl ha
  obtain ⟨w, c, v', rfl, hc, rfl, -⟩ :=
    assigned_of_stretch hstretch hstays (u := []) rfl hq (by simpa using hvalue)
  have hlabel := labels_of_mem_ends hname hq (spans_around ⟨b, a⟩ [] w (c :: v'))
  have hnot := (labels_of_matches hname hmade).not_value hlabel
  simp [hc] at hnot

/-! ### All passes -/

lemma starts_words {words : List String} (h : ∀ w ∈ words, w.toList.head?.any Char.isLower) :
    Starts (alts (words.map caseless)) := by
  refine starts_alts fun r hr => ?_
  obtain ⟨w, hw, rfl⟩ := List.mem_map.mp hr
  exact starts_caseless (h w hw)

lemma starts_keyword {text : String → Regex} (h : ∀ w : String,
    w.toList.head?.any Char.isLower → Starts (text w)) : Starts (keyword text) := by
  refine starts_alts fun r hr => ?_
  simp only [List.mem_cons, List.not_mem_nil, or_false] at hr
  rcases hr with rfl | rfl | rfl | rfl | rfl | rfl
  · exact h _ (by decide)
  · exact h _ (by decide)
  · exact h _ (by decide)
  · exact h _ (by decide)
  · exact h _ (by decide)
  · exact starts_seq (h _ (by decide)) _

/-- A pattern between two word boundaries that begins with a word character. -/
structure Bounded (s : Regex) : Prop where
  starts : Starts s
  closed : (seq boundary s).closed
  stays : (seq boundary s).stays brackets true

/-- What the passes need of each other: a pass that comes later, and the pass itself. -/
structure Lasting (looks : Bool) (m : Mask) : Prop where
  stays : Local looks m
  edged : Edged looks m
  settled : Settled m

lemma Bounded.lasting (h : Bounded s) : Lasting true (whole (seq boundary s) hs) where
  stays := local_closed h.closed h.stays
  edged := edged_closed h.starts h.closed
  settled := settled_whole

lemma lasting_header : ∀ m ∈ passes.take 2, Lasting false m := by
  intro m hm
  have hm' : m ∈ [whole bearerPattern rfl, whole authorizationPattern rfl] := hm
  simp only [List.mem_cons, List.not_mem_nil, or_false] at hm'
  rcases hm' with rfl | rfl
  · exact ⟨local_solid [caseless "bearer", plus (one isSpace)] (by decide +kernel),
      edged_whole (starts_seq (starts_caseless (by decide)) _), settled_whole⟩
  · exact ⟨local_solid [caseless "authorization", spaces, character ':', spaces]
      (by decide +kernel), edged_whole (starts_seq (starts_caseless (by decide)) _), settled_whole⟩

lemma lasting_rest : ∀ m ∈ passes.drop 2, Lasting true m := by
  have hprovider (s : Regex) : Starts (seq providerPrefix s) :=
    starts_seq (starts_words (by decide)) s
  have hexactly (w : String) (h : w.toList.head?.any Char.isLower) : Starts (exactly w) := by
    obtain ⟨c, hc, hlower⟩ := (Option.any_eq_true _ _).mp h
    exact starts_exactly (by simp [hc, isWord_iff, isAlpha_iff, hlower])
  intro m hm
  have hm' : m ∈ [whole githubKey rfl, whole segmentedKey rfl, whole bareKey rfl,
    whole labelledKey rfl, whole stripeKey rfl, whole geminiKey rfl, whole rawJwt rfl,
    whole freeText rfl, whole upperFreeText rfl, sensitiveAssignment,
    querySensitiveAssignment] := hm
  simp only [List.mem_cons, List.not_mem_nil, or_false] at hm'
  rcases hm' with rfl | rfl | rfl | rfl | rfl | rfl | rfl | rfl | rfl | rfl | rfl
  · exact Bounded.lasting ⟨starts_seq (starts_words (by decide)) _, rfl, by decide +kernel⟩
  · exact Bounded.lasting ⟨hprovider _, rfl, by decide +kernel⟩
  · exact Bounded.lasting ⟨hprovider _, rfl, by decide +kernel⟩
  · exact Bounded.lasting ⟨starts_seq (starts_caseless (by decide)) _, rfl, by decide +kernel⟩
  · exact Bounded.lasting ⟨hprovider _, rfl, by decide +kernel⟩
  · exact Bounded.lasting ⟨starts_seq (starts_exactly (by decide)) _, rfl, by decide +kernel⟩
  · exact Bounded.lasting ⟨starts_seq (starts_exactly (by decide)) _, rfl, by decide +kernel⟩
  · exact Bounded.lasting ⟨starts_seq (starts_keyword fun _ => starts_caseless) _, rfl,
      by decide +kernel⟩
  · exact Bounded.lasting ⟨starts_seq (starts_keyword hexactly) _, rfl, by decide +kernel⟩
  · exact ⟨local_assigned (by decide +kernel), edged_assigned (by decide +kernel),
      settled_assigned (by decide +kernel) (by decide +kernel)⟩
  · exact ⟨local_assigned (by decide +kernel), edged_assigned (by decide +kernel),
      settled_assigned (by decide +kernel) (by decide +kernel)⟩

lemma quiet_passes : ∀ m ∈ passes, Quiet m := by
  unfold Quiet
  decide +kernel

/-- **The passes** leave no match of theirs, and none of the passes before them. -/
lemma free_foldl (looks : Bool) (done : List Mask) {ms : List Mask}
    (hlocal : ∀ m ∈ done, Local looks m) (hquiet : ∀ m ∈ done ++ ms, Quiet m)
    (hlasting : ∀ m ∈ ms, Lasting looks m) (hfree : ∀ m ∈ done, m.Free t) :
    ∀ m ∈ done ++ ms, m.Free (ms.foldl (fun redacted m => m.replaceAll id marker redacted) t) := by
  induction ms generalizing done t with
  | nil => simpa using hfree
  | cons n ms ih =>
    have hn := hlasting n List.mem_cons_self
    have hsplit : done ++ n :: ms = (done ++ [n]) ++ ms := by simp
    rw [hsplit] at hquiet ⊢
    refine ih (done ++ [n]) ?_ hquiet (fun m hm => hlasting m (List.mem_cons_of_mem n hm)) ?_
    · intro m hm
      rcases List.mem_append.mp hm with hm | hm
      · exact hlocal m hm
      · obtain rfl := List.mem_singleton.mp hm
        exact hn.stays
    · intro m hm
      have hq : Quiet m := hquiet m (List.mem_append_left _ hm)
      rcases List.mem_append.mp hm with hm | hm
      · exact free_of_free (hlocal m hm) hq hn.edged (hfree m hm)
      · obtain rfl := List.mem_singleton.mp hm
        exact free_self hn.stays hq hn.edged hn.settled

lemma Local.weaken (h : Local false m) : Local true m := fun hjoined =>
  h (hjoined.weaken false)

/-- No pattern matches in a redacted text. -/
theorem free_redact (text : List Char) : ∀ m ∈ passes, m.Free (redact text) := by
  have hheader := free_foldl false [] (t := text) (by simp)
    (fun m hm => quiet_passes m (List.mem_of_mem_take hm)) lasting_header (by simp)
  have hquiet : ∀ m ∈ passes.take 2 ++ passes.drop 2, Quiet m := by
    rw [List.take_append_drop]
    exact quiet_passes
  have hall := free_foldl true (passes.take 2)
    (fun m hm => Local.weaken (lasting_header m hm).stays) hquiet lasting_rest hheader
  rwa [List.take_append_drop, ← List.foldl_append, List.take_append_drop] at hall

lemma foldl_of_free {ms : List Mask} (hfree : ∀ m ∈ ms, m.Free t) :
    ms.foldl (fun redacted m => m.replaceAll id marker redacted) t = t := by
  induction ms with
  | nil => rfl
  | cons m ms ih =>
    rw [List.foldl_cons, replaceAll_of_free (hfree m List.mem_cons_self)]
    exact ih fun m' hm' => hfree m' (List.mem_cons_of_mem m hm')

/-- **Redacting a redacted text** leaves it as it is. -/
theorem redactText_redactText (text : String) : redactText (redactText text) = redactText text := by
  have hsame : redact (redact text.toList) = redact text.toList :=
    foldl_of_free (free_redact text.toList)
  rw [redactText, redactText, String.toList_ofList, hsame]

end Workbench.ErrorSink
