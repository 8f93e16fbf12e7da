import Workbench.ErrorSink.Survival

/-!
The values of sensitive assignments.

The pattern for assignments strikes out the value behind a name as long as the name stands there. A
pass may take the name without the value: then it has a match that ends in the label, between the
start of the name and the value.
-/

namespace Workbench.ErrorSink

open Workbench.Lib Workbench.Lib.Regex Workbench.Lib.Mask

def sensitiveNames : List (List Char) :=
  ["access_token", "refresh_token", "id_token", "api-key", "api_key", "apikey", "secret",
    "password", "passwd", "token", "credential"].map String.toList

structure Assignment where
  before : List Char
  name : List Char
  left : List Char
  right : List Char
  value : List Char
  after : List Char
  named : name.map Char.toLower ∈ sensitiveNames
  starts : ∀ c ∈ before.getLast?, isWord c = false
  blanks : (∀ c ∈ left, isSpace c) ∧ ∀ c ∈ right, isSpace c
  run : value ≠ [] ∧ ∀ c ∈ value, isValueChar c
  maximal : ∀ c ∈ after.head?, isValueChar c = false

namespace Assignment

def labelled (a : Assignment) : Labelled where
  before := a.before
  label := a.name ++ (a.left ++ '=' :: a.right)
  secret := a.value
  after := a.after

/-- No pass has a match that ends between the start of the name and the value. -/
def LabelKept (a : Assignment) : Prop := ∀ s ∈ stages passes a.labelled.cells, ¬ s.EndsInLabel

end Assignment

variable {p q : Place} {m : Mask} {t : List Cell} {l : Labelled}

/-! ### The pattern for assignments -/

lemma spells_hyphenOrUnderscore : Spells hyphenOrUnderscore [['-'], ['_']] :=
  spells_one (fun c => by simp [toLower_eq_iff]) (by simp)

lemma spells_sensitiveName : Spells sensitiveName sensitiveNames := by
  have hapi := spells_seq (spells_caseless "api") (spells_seq
    (spells_alt spells_hyphenOrUnderscore spells_empty)
    (spells_seq (spells_caseless "key") spells_empty))
  have hall := spells_alt (spells_caseless "access_token") (spells_alt (spells_caseless
    "refresh_token") (spells_alt (spells_caseless "id_token") (spells_alt hapi (spells_alt
    (spells_caseless "apikey") (spells_alt (spells_caseless "secret") (spells_alt
    (spells_caseless "password") (spells_alt (spells_caseless "passwd") (spells_alt
    (spells_caseless "token") (spells_alt (spells_caseless "credential") spells_never)))))))))
  refine hall.of_iff fun w => ⟨fun h => ?_, fun h => ?_⟩
  · simpa [sensitiveNames] using h
  · simpa [sensitiveNames] using h

/-- No sensitive name begins with another. -/
lemma prefix_unique : ∀ n ∈ sensitiveNames, ∀ n' ∈ sensitiveNames, n <+: n' → n = n' := by decide

/-- No sensitive name begins inside of another behind a character that is no word character. -/
lemma not_inside : ∀ n ∈ sensitiveNames, ∀ i < n.length, ∀ c ∈ n[i]?, isWord c = false →
    ∀ n' ∈ sensitiveNames, n[i + 1]? ≠ n'.head? := by decide

/-- Where a sensitive name stands it is the name that is matched. -/
lemma first_sensitiveName {name : List Char} (hname : name.map Char.toLower ∈ sensitiveNames)
    (h : Spans p name q) : First sensitiveName p q := by
  refine first_of_all (List.ne_nil_of_mem ((spells_sensitiveName p q).mpr ⟨name, hname, h⟩)) ?_
  intro q' hq'
  obtain ⟨n, hn, hs⟩ := (spells_sensitiveName p q').mp hq'
  have heq : n.map Char.toLower = name.map Char.toLower := by
    have hn' : n <+: p.after := ⟨_, hs.after.symm⟩
    have hname' : name <+: p.after := ⟨_, h.after.symm⟩
    rcases List.prefix_or_prefix_of_prefix hn' hname' with hp | hp
    · exact prefix_unique _ hn _ hname (hp.map Char.toLower)
    · exact (prefix_unique _ hname _ hn (hp.map Char.toLower)).symm
  have hlen : n.length = name.length := by simpa using congrArg List.length heq
  obtain ⟨-, hafter⟩ := List.append_inj (hs.after.symm.trans h.after) hlen
  obtain ⟨rfl, -⟩ := List.append_inj (hs.after.symm.trans h.after) hlen
  exact Place.ext (hs.before.trans h.before.symm) hafter

lemma first_separator {left right : List Char} (hleft : ∀ c ∈ left, isSpace c)
    (hright : ∀ c ∈ right, isSpace c) (h : Spans p (left ++ '=' :: right) q)
    (hq : ∀ c ∈ q.after.head?, isSpace c = false) : First separator p q := by
  obtain ⟨x, hx, h⟩ := spans_split h
  obtain ⟨y, hy, h⟩ := spans_split (m := ['=']) h
  have heq : ∀ c ∈ x.after.head?, isSpace c = false := by
    intro c hc
    rw [hy.after] at hc
    obtain rfl : '=' = c := by simpa using hc
    decide
  exact first_seq (first_star_one_of_spans hx hleft heq) (first_seq (first_one (by simp) hy)
    (first_seq (first_star_one_of_spans h hright hq) (first_empty q)))

lemma mem_ends_separator (h : q ∈ separator.ends p) : ∃ left right,
    Spans p (left ++ '=' :: right) q ∧ (∀ c ∈ left, isSpace c) ∧ ∀ c ∈ right, isSpace c := by
  obtain ⟨u, hu, hequals⟩ := mem_ends_seq.1 h
  obtain ⟨v, hv, hblank⟩ := mem_ends_seq.1 hequals
  obtain ⟨w, hw, hlast⟩ := mem_ends_seq.1 hblank
  obtain rfl := mem_ends_empty.1 hlast
  obtain ⟨left, hleft, hlefts⟩ := mem_ends_star_one hu
  obtain ⟨c, hc, hcs⟩ := mem_ends_one.1 hv
  obtain rfl : c = '=' := by simpa using hc
  obtain ⟨right, hright, hrights⟩ := mem_ends_star_one hw
  exact ⟨left, right, spans_append hleft (spans_append hcs hright), hlefts, hrights⟩

/-- What a match of the pattern keeps. -/
lemma kept_of_find {k d : ℕ} (h : sensitiveAssignment.find p = some (k, d)) :
    ∃ name left right q, Spans p (name ++ (left ++ '=' :: right)) q ∧
      (name ++ (left ++ '=' :: right)).length = k ∧ name.map Char.toLower ∈ sensitiveNames ∧
      (∀ c ∈ left, isSpace c) ∧ ∀ c ∈ right, isSpace c := by
  obtain ⟨q, -, kept, -, hkeeps, -, hkept, -, rfl, -, -⟩ := spans_of_find h
  obtain ⟨x, hx, hnamed⟩ := mem_ends_seq.1 hkeeps
  obtain ⟨y, hy, hseparated⟩ := mem_ends_seq.1 hnamed
  obtain ⟨z, hz, hend⟩ := mem_ends_seq.1 hseparated
  obtain rfl := mem_ends_empty.1 hend
  obtain rfl := (mem_ends_boundary.1 hx).1
  obtain ⟨name, hname, hs⟩ := (spells_sensitiveName x y).mp hy
  obtain ⟨left, right, hsep, hlefts, hrights⟩ := mem_ends_separator hz
  have hspan := spans_append hs hsep
  rw [spans_unique hkept hspan]
  exact ⟨name, left, right, _, hspan, rfl, hname, hlefts, hrights⟩

lemma isSpace_of_isWord {c : Char} (h : isWord c) : isSpace c = false := by
  have hbounds : (48 ≤ c.toNat ∧ c.toNat ≤ 57) ∨ (65 ≤ c.toNat ∧ c.toNat ≤ 90) ∨
      (97 ≤ c.toNat ∧ c.toNat ≤ 122) ∨ c.toNat = 95 := by
    rw [isWord_iff, isAlpha_iff, isUpper_iff, isLower_iff, isDigit_iff] at h
    rcases h with (h | h) | h | rfl
    · exact .inr (.inl h)
    · exact .inr (.inr (.inl h))
    · exact .inl h
    · exact .inr (.inr (.inr rfl))
  simp only [isSpace, NumberText.isTrimmed, Bool.or_eq_false_iff, List.contains_eq_mem,
    decide_eq_false_iff_not, List.mem_cons, List.not_mem_nil, or_false, not_or,
    Bool.and_eq_false_iff]
  omega

lemma isSpace_of_isValueChar {c : Char} (h : isValueChar c) : isSpace c = false := by
  simp only [isValueChar, Bool.or_eq_true, List.contains_eq_mem, decide_eq_true_eq] at h
  rcases h with h | h
  · exact isSpace_of_isWord h
  · have hall : ∀ d ∈ ['.', '+', '/', '=', '%', '-'], isSpace d = false := by decide
    exact hall c h

/-- A sensitive name begins with a word character. -/
lemma isWord_of_name {name : List Char} (h : name.map Char.toLower ∈ sensitiveNames) :
    ∃ c n, name = c :: n ∧ isWord c := by
  have hall : ∀ w ∈ sensitiveNames, w.head?.any Char.isLower := by decide
  obtain ⟨d, hd, hlower⟩ := (Option.any_eq_true _ _).mp (hall _ h)
  rcases name with _ | ⟨c, n⟩
  · simp at hd
  · obtain rfl : c.toLower = d := by simpa using hd
    exact ⟨c, n, rfl, isWord_of_toLower hlower⟩

/-- Where an assignment stands the pattern takes its value. -/
lemma find_assignment (a : Assignment) {before after : List Char}
    (hbefore : ∀ c ∈ before.head?, isWord c = false)
    (hafter : ∀ c ∈ after.head?, isValueChar c = false) :
    sensitiveAssignment.find ⟨before, a.labelled.label ++ (a.value ++ after)⟩ =
      some (a.labelled.label.length, a.value.length) := by
  have hspan : Spans ⟨before, a.labelled.label ++ (a.value ++ after)⟩ a.labelled.label
      ⟨a.labelled.label.reverse ++ before, a.value ++ after⟩ := ⟨rfl, rfl⟩
  have hvalue : Spans ⟨a.labelled.label.reverse ++ before, a.value ++ after⟩ a.value
      ⟨a.value.reverse ++ (a.labelled.label.reverse ++ before), after⟩ := ⟨rfl, rfl⟩
  obtain ⟨x, hx, hsep⟩ := spans_split hspan
  obtain ⟨c, n, hname, hc⟩ := isWord_of_name a.named
  have hboundary : atBoundary ⟨before, a.labelled.label ++ (a.value ++ after)⟩ := by
    have hfirst : (a.labelled.label ++ (a.value ++ after)).head? = some c := by
      simp [Assignment.labelled, hname]
    rw [atBoundary, hfirst]
    cases hb : before.head? with
    | none => simp [hc]
    | some d => simp [hc, hbefore d (by simp [hb])]
  obtain ⟨v, value, hv⟩ := List.exists_cons_of_ne_nil a.run.1
  have hblank : ∀ d ∈ (a.value ++ after).head?, isSpace d = false := by
    intro d hd
    obtain rfl : v = d := by simpa [hv] using hd
    exact isSpace_of_isValueChar (a.run.2 v (by simp [hv]))
  have hkeeps : First sensitiveAssignment.keeps ⟨before, a.labelled.label ++ (a.value ++ after)⟩
      ⟨a.labelled.label.reverse ++ before, a.value ++ after⟩ :=
    first_seq (first_boundary hboundary) (first_seq (first_sensitiveName a.named hx)
      (first_seq (first_separator a.blanks.1 a.blanks.2 hsep hblank) (first_empty _)))
  exact find_of_first hkeeps (first_plus_one_of_spans hvalue a.run.1 a.run.2 hafter) hspan hvalue

/-! ### The label through the passes -/

/-- The label and the value stand in the text as they did, the name at a word boundary and the value
in front of no other value character. -/
structure Intact (a : Assignment) (t A B : List Cell) : Prop where
  parts : t = A ++ ((cells .label a.labelled.label ++ cells .secret a.value) ++ B)
  before : ∀ c ∈ A, c.2 ≠ .label ∧ c.2 ≠ .secret
  after : ∀ c ∈ B, c.2 ≠ .label ∧ c.2 ≠ .secret
  boundary : ∀ c ∈ A.getLast?, isWord c.1 = false
  maximal : ∀ c ∈ B.head?, isValueChar c.1 = false

variable {a : Assignment} {A B : List Cell}

lemma intact_cells (a : Assignment) :
    Intact a a.labelled.cells (cells .aside a.before) (cells .aside a.after) where
  parts := by simp [Labelled.cells, Assignment.labelled]
  before c hc := by simp [snd_of_mem_cells hc]
  after c hc := by simp [snd_of_mem_cells hc]
  boundary c hc := by
    rw [cells, List.getLast?_map] at hc
    obtain ⟨d, hd, rfl⟩ := Option.map_eq_some_iff.mp hc
    exact a.starts d hd
  maximal c hc := by
    rw [cells, List.head?_map] at hc
    obtain ⟨d, hd, rfl⟩ := Option.map_eq_some_iff.mp hc
    exact a.maximal d hd

/-- What follows a cell of the label: more of the label, and the value. -/
lemma Intact.after_label (h : Intact a t A B) {Z W : List Cell} {c : Cell} (hc : c.2 = .label)
    (ht : t = Z ++ c :: W) :
    ∃ L, W = L ++ (cells .secret a.value ++ B) ∧ ∀ d ∈ L, d.2 = .label := by
  have hA : c ∉ A := fun hm => (h.before c hm).1 hc
  have hR : c ∉ cells .secret a.value ++ B := fun hm => by
    rcases List.mem_append.mp hm with hm | hm
    · simp [snd_of_mem_cells hm] at hc
    · exact (h.after c hm).1 hc
  have hsplit : Z ++ c :: W =
      (A ++ cells .label a.labelled.label) ++ (cells .secret a.value ++ B) := by
    rw [← ht, h.parts]
    simp
  rcases List.append_eq_append_iff.mp hsplit with ⟨u, hu, hW⟩ | ⟨u, rfl, hW⟩
  · rcases u with _ | ⟨d, u⟩
    · exact absurd (by rw [List.nil_append] at hW; simp [← hW]) hR
    · obtain ⟨rfl, rfl⟩ := List.cons.inj hW
      -- the cell stands in the label, not in the text before it
      rcases List.append_eq_append_iff.mp hu with ⟨v, rfl, hv⟩ | ⟨v, rfl, hv⟩
      · have hlabel : ∀ d ∈ u, d ∈ cells .label a.labelled.label := fun d hd => by
          rw [hv]
          simp [hd]
        exact ⟨u, rfl, fun d hd => snd_of_mem_cells (hlabel d hd)⟩
      · rcases v with _ | ⟨d, v⟩
        · have hlabel : ∀ d ∈ u, d ∈ cells .label a.labelled.label := fun d hd => by
            rw [List.nil_append] at hv
            rw [← hv]
            simp [hd]
          exact ⟨u, rfl, fun d hd => snd_of_mem_cells (hlabel d hd)⟩
        · obtain ⟨rfl, -⟩ := List.cons.inj hv
          simp at hA
  · exact absurd (by simp [hW]) hR

/-- A match drops nothing of the label, if it neither ends in it nor drops any of the value. -/
lemma Intact.not_dropped (h : Intact a t A B) (hend : ¬ Stage.EndsInLabel (m, t))
    (hdrops : ¬ Stage.Drops (m, t) .secret) {pc : Piece Cell} (hp : pc ∈ m.pieces Prod.fst t)
    {c : Cell} (hc : c ∈ pc.dropped) : c.2 ≠ .label := by
  intro hlabel
  cases pc with
  | plain d => simp [Piece.dropped] at hc
  | found kept dropped =>
    obtain ⟨l, r, hparts⟩ := (cut_pieces t).infix_of_mem hp
    obtain ⟨d₁, d₂, hd⟩ := List.append_of_mem hc
    obtain rfl : dropped = d₁ ++ c :: d₂ := hd
    obtain ⟨L, hL, hall⟩ := h.after_label (Z := l ++ (kept ++ d₁)) (W := d₂ ++ r) hlabel
      (by rw [hparts]; simp)
    have hends : (∀ d ∈ d₂, d.2 = .label) → Stage.EndsInLabel (m, t) := by
      intro hd₂
      refine ⟨_, hp, (c :: d₂).getLast (by simp), ?_, ?_⟩
      · rw [Piece.dropped, List.getLast?_append_of_ne_nil _ (by simp),
          List.getLast?_eq_some_getLast (by simp)]
        rfl
      · rcases List.mem_cons.mp (List.getLast_mem (l := c :: d₂) (by simp)) with heq | hm
        · rw [heq, hlabel]
        · exact hd₂ _ hm
    rcases List.append_eq_append_iff.mp hL with ⟨u, rfl, -⟩ | ⟨u, rfl, hu⟩
    · exact hend (hends fun d hd => hall d (by simp [hd]))
    · rcases u with _ | ⟨d, u⟩
      · exact hend (hends fun d hd => hall d (by simpa using hd))
      · obtain ⟨v, value, hv⟩ := List.exists_cons_of_ne_nil a.run.1
        rw [hv] at hu
        obtain ⟨rfl, -⟩ := List.cons.inj hu
        exact hdrops ⟨_, hp, (v, .secret), by simp [Piece.dropped], rfl⟩

/-- **One pass** that neither ends a match in the label nor drops any of the value. -/
lemma Intact.step (h : Intact a t A B) (hend : ¬ Stage.EndsInLabel (m, t))
    (hdrops : ¬ Stage.Drops (m, t) .secret) : ∃ A' B', Intact a (replaceCells m t) A' B' := by
  have hmarker : cells .marker marker ≠ [] := by simp [cells_marker]
  have hkept : ∀ pc ∈ m.pieces Prod.fst t, ∀ c ∈ pc.dropped,
      c ∉ cells .label a.labelled.label ++ cells .secret a.value := by
    intro pc hp c hc hm
    rcases List.mem_append.mp hm with hm | hm
    · exact h.not_dropped hend hdrops hp hc (snd_of_mem_cells hm)
    · exact hdrops ⟨pc, hp, c, hc, snd_of_mem_cells hm⟩
  have hne : cells .label a.labelled.label ++ cells .secret a.value ≠ [] := by
    simp [cells, a.run.1]
  have hcut : Cut Prod.fst m [] t (m.pieces Prod.fst t) := cut_pieces t
  rw [replaceCells, replaceAll]
  generalize m.pieces Prod.fst t = ps at hkept hcut ⊢
  rw [h.parts] at hcut
  obtain ⟨A', B', hout, hA, hB⟩ := hcut.keeps hmarker hkept hne
  refine ⟨A', B', hout, fun c hc => ?_, fun c hc => ?_, fun c hc => ?_, fun c hc => ?_⟩
  · rcases hA.mem c hc with hc | hc
    · exact h.before c hc
    · simp [snd_of_mem_cells hc]
  · rcases hB.mem c hc with hc | hc
    · exact h.after c hc
    · simp [snd_of_mem_cells hc]
  · rcases hA.last c hc with hc | hc
    · exact h.boundary c hc
    · have hlast : (cells .marker marker).getLast? = some (']', Part.marker) := rfl
      obtain rfl : (']', Part.marker) = c := by simpa [hlast] using hc
      decide
  · rcases hB.head c hc with hc | hc
    · exact h.maximal c hc
    · obtain rfl : ('[', Part.marker) = c := by simpa [cells_marker] using hc
      decide

/-- **The passes** leave the label and the value as they are, or some of the value is dropped. -/
lemma Intact.passes {ms : List Mask} (h : Intact a t A B)
    (hkept : ∀ s ∈ stages ms t, ¬ s.EndsInLabel) (hdrops : ∀ s ∈ stages ms t, ¬ s.Drops .secret) :
    ∃ A' B', Intact a (redactCells ms t) A' B' := by
  induction ms generalizing t A B with
  | nil => exact ⟨A, B, h⟩
  | cons m ms ih =>
    obtain ⟨A', B', h'⟩ := h.step (hkept _ List.mem_cons_self) (hdrops _ List.mem_cons_self)
    exact ih h' (fun s hs => hkept s (List.mem_cons_of_mem _ hs))
      fun s hs => hdrops s (List.mem_cons_of_mem _ hs)

/-- What a match of the pattern keeps from the text before a name does not reach into the name. -/
lemma not_kept_of_name {u v name left right : List Char} {c : Char} (hune : u ≠ [])
    (hu : ∀ d ∈ u.getLast?, isWord d = false) (hc : isWord c)
    (hkept : u ++ c :: v = name ++ (left ++ '=' :: right))
    (hname : name.map Char.toLower ∈ sensitiveNames) (hleft : ∀ d ∈ left, isSpace d)
    (hright : ∀ d ∈ right, isSpace d) {w : List Char} (hw : w.map Char.toLower ∈ sensitiveNames)
    (hwc : w.head? = some c) : False := by
  have hsep : c ∉ left ++ '=' :: right := by
    intro hm
    rcases List.mem_append.mp hm with hm | hm
    · exact absurd (hleft c hm) (by simp [isSpace_of_isWord hc])
    · rcases List.mem_cons.mp hm with rfl | hm
      · exact absurd hc (by decide)
      · exact absurd (hright c hm) (by simp [isSpace_of_isWord hc])
  rcases List.append_eq_append_iff.mp hkept with ⟨n, rfl, hn⟩ | ⟨n, rfl, hn⟩
  · rcases n with _ | ⟨d, n⟩
    · exact hsep (by rw [List.nil_append] at hn; simp [← hn])
    · obtain ⟨rfl, -⟩ := List.cons.inj hn
      -- the name would begin inside of another
      obtain ⟨init, d, rfl⟩ : ∃ init d, u = init ++ [d] :=
        ⟨u.dropLast, u.getLast hune, (List.dropLast_append_getLast hune).symm⟩
      have hd : isWord d = false := hu d (by simp)
      have hlower : d.toLower = d := by
        refine toLower_of_not_isUpper (Bool.eq_false_iff.mpr fun hup => ?_)
        rw [isWord_iff.2 (.inl (isAlpha_iff.2 (.inl hup)))] at hd
        cases hd
      refine not_inside _ hname init.length (by simp) d ?_ hd _ hw ?_
      · simp [hlower]
      · rw [List.head?_map, hwc]
        simp
  · exact hsep (by simp [hn])

/-- **The pattern for assignments** drops some of the value behind a label that it does not end
in. -/
lemma Intact.drops (h : Intact a t A B) (hend : ¬ Stage.EndsInLabel (sensitiveAssignment, t)) :
    Stage.Drops (sensitiveAssignment, t) .secret := by
  have hcut : Cut Prod.fst sensitiveAssignment [] t (sensitiveAssignment.pieces Prod.fst t) :=
    cut_pieces t
  rw [Stage.Drops]
  rw [Stage.EndsInLabel] at hend
  simp only at hend ⊢
  generalize sensitiveAssignment.pieces Prod.fst t = ps at hend hcut ⊢
  rw [h.parts] at hcut
  obtain ⟨c, n, hname, hc⟩ := isWord_of_name a.named
  rcases hcut.split with
    ⟨ps₁, ps₂, rfl, -, hcut⟩ | ⟨kept, dropped, hp, ⟨u₁, u₂, v₁, v₂, hu, hv, hune, hvne, hkd, hfind⟩⟩
  · have hbefore : ∀ c ∈ ((A.map Prod.fst).reverse ++ []).head?, isWord c = false := by
      intro c hc
      rw [List.append_nil, List.head?_reverse, List.getLast?_map] at hc
      obtain ⟨d, hd, rfl⟩ := Option.map_eq_some_iff.mp hc
      exact h.boundary d hd
    have hafter : ∀ c ∈ (B.map Prod.fst).head?, isValueChar c = false := by
      intro c hc
      rw [List.head?_map] at hc
      obtain ⟨d, hd, rfl⟩ := Option.map_eq_some_iff.mp hc
      exact h.maximal d hd
    have hmem := hcut.mem_of_find (by simpa using find_assignment a hbefore hafter)
    obtain ⟨v, value, hv⟩ := List.exists_cons_of_ne_nil a.run.1
    exact ⟨_, List.mem_append_right _ hmem, (v, .secret), by simp [Piece.dropped, cells, hv], rfl⟩
  · -- a match from before the name takes the name and what follows it into the value
    obtain ⟨name, left, right, q, hspan, hlen, hnamed, hleft, hright⟩ := kept_of_find hfind
    have hshow : kept.map Prod.fst = name ++ (left ++ '=' :: right) := by
      have hafter : kept.map Prod.fst ++ (dropped ++ v₂).map Prod.fst =
          (name ++ (left ++ '=' :: right)) ++ q.after := by
        rw [← hspan.after, hv, ← List.map_append, ← List.append_assoc, ← List.append_assoc, hkd]
      exact (List.append_inj hafter (by simpa using hlen.symm)).1
    obtain ⟨u, hu'⟩ : ∃ u, dropped = u ++ v₁ := by
      rcases List.append_eq_append_iff.mp hkd with ⟨u, -, hu'⟩ | ⟨k, rfl, hk⟩
      · exact ⟨u, hu'⟩
      · rcases k with _ | ⟨d, k⟩
        · exact ⟨[], by simpa using hk.symm⟩
        · exfalso
          obtain ⟨v, hcell⟩ : ∃ v, (d :: k).map Prod.fst = c :: v := by
            have hfirst := congrArg (fun l => (l.map Prod.fst).head?) hv
            simp [Assignment.labelled, hname, cells, hk] at hfirst
            exact ⟨k.map Prod.fst, by simp [hfirst]⟩
          refine not_kept_of_name (u := u₂.map Prod.fst) (by simpa using hune) ?_ hc
            (by rw [← hcell, ← List.map_append, hshow]) hnamed hleft hright a.named
            (by simp [hname])
          intro e he
          rw [List.getLast?_map] at he
          obtain ⟨x, hx, rfl⟩ := Option.map_eq_some_iff.mp he
          refine h.boundary x ?_
          rw [hu, List.getLast?_append_of_ne_nil _ hune]
          exact hx
    by_cases hlen' : (cells .label a.labelled.label).length < v₁.length
    · obtain ⟨d, hd, hsecret⟩ := drops_secret a.run.1
        (show v₁ ++ v₂ = cells .label a.labelled.label ++ (cells .secret a.value ++ B) by
          rw [← hv, List.append_assoc]) hlen'
      exact ⟨_, hp, d, by simp [Piece.dropped, hu', hd], hsecret⟩
    · -- such a match would end in the label
      exfalso
      obtain ⟨l, hl⟩ : ∃ l, cells .label a.labelled.label = v₁ ++ l := by
        rw [List.append_assoc] at hv
        rcases List.append_eq_append_iff.mp hv with ⟨l, hl, -⟩ | ⟨l, hl, -⟩
        · obtain rfl : l = [] := by
            rw [hl, List.length_append] at hlen'
            exact List.length_eq_zero_iff.mp (by omega)
          exact ⟨[], by simp [hl]⟩
        · exact ⟨l, hl⟩
      refine hend ⟨_, hp, v₁.getLast hvne, ?_, ?_⟩
      · rw [Piece.dropped, hu', List.getLast?_append_of_ne_nil _ hvne,
          List.getLast?_eq_some_getLast hvne]
        rfl
      · have hm : v₁.getLast hvne ∈ cells .label a.labelled.label := by
          rw [hl]
          exact List.mem_append_left _ (List.getLast_mem hvne)
        exact snd_of_mem_cells hm

/-- `failed request token=abc123xyz retries=3` -/
def tokenAssignment : Assignment where
  before := "failed request ".toList
  name := "token".toList
  left := []
  right := []
  value := "abc123xyz".toList
  after := " retries=3".toList
  named := by decide
  starts := by decide
  blanks := by decide
  run := by decide
  maximal := by decide

/-- `use token access_token=hunter2` -/
def swallowedAssignment : Assignment where
  before := "use token ".toList
  name := "access_token".toList
  left := []
  right := []
  value := "hunter2".toList
  after := []
  named := by decide
  starts := by decide
  blanks := by decide
  run := by decide
  maximal := by decide

end Workbench.ErrorSink
