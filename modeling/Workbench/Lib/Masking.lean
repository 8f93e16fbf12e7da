import Mathlib.Data.List.Infix
import Workbench.Lib.Regex

/-!
Replacing the matches of an expression by a marker.

The text is a list of cells, each of which shows a character, so that a cell can also carry where it
comes from. A text is cut from the left into cells that stay and matches; a match may keep a first
part and has something to drop.
-/

namespace Workbench.Lib

/-- An expression in two parts. Of a match the first part is kept and the other replaced. -/
structure Mask where
  keeps : Regex
  drops : Regex
  consumes : drops.nullable = false

namespace Mask

/-- How much the match at a place keeps and drops. -/
def find (m : Mask) (p : Place) : Option (ℕ × ℕ) :=
  ((m.keeps.ends p).flatMap fun q => (m.drops.ends q).map fun x =>
    (p.after.length - q.after.length, q.after.length - x.after.length)).head?

/-- A cell that stays, or a match. -/
inductive Piece (α : Type*)
  | plain (cell : α)
  | found (kept dropped : List α)

namespace Piece

variable {α β : Type*}

def source : Piece α → List α
  | plain cell => [cell]
  | found kept dropped => kept ++ dropped

def target (marker : List α) : Piece α → List α
  | plain cell => [cell]
  | found kept _ => kept ++ marker

def dropped : Piece α → List α
  | plain _ => []
  | found _ dropped => dropped

def map (g : α → β) : Piece α → Piece β
  | plain cell => plain (g cell)
  | found kept dropped => found (kept.map g) (dropped.map g)

end Piece

variable {α β : Type*} (char : α → Char) (m : Mask)

/-- The pieces of a text. The first `skip` cells belong to a match that has been made. -/
def cut : ℕ → List Char → List α → List (Piece α)
  | _, _, [] => []
  | skip + 1, before, a :: rest => cut skip (char a :: before) rest
  | 0, before, a :: rest =>
    match m.find ⟨before, (a :: rest).map char⟩ with
    | some (k, d) =>
      .found ((a :: rest).take k) (((a :: rest).drop k).take d) ::
        cut (k + d - 1) (char a :: before) rest
    | none => .plain a :: cut 0 (char a :: before) rest

def pieces (t : List α) : List (Piece α) := m.cut char 0 [] t

/-- `String.prototype.replace` with an expression that has the flag `g`. -/
def replaceAll (marker t : List α) : List α := (m.pieces char t).flatMap (Piece.target marker)

/-! ### How a text is cut -/

variable {char m}

lemma spans_of_find {p : Place} {k d : ℕ} (h : m.find p = some (k, d)) :
    ∃ q x kept dropped, q ∈ m.keeps.ends p ∧ x ∈ m.drops.ends q ∧ Spans p kept q ∧
      Spans q dropped x ∧ kept.length = k ∧ dropped.length = d ∧ dropped ≠ [] := by
  obtain ⟨q, hq, hx⟩ := List.mem_flatMap.mp (List.mem_of_head? h)
  obtain ⟨x, hx, hkd⟩ := List.mem_map.mp hx
  obtain ⟨hk', hd'⟩ := Prod.mk.inj hkd
  obtain ⟨kept, hkept⟩ := Regex.spans_of_mem_ends hq
  obtain ⟨dropped, hdropped⟩ := Regex.spans_of_mem_ends hx
  have hk := Regex.length_of_spans hkept
  have hd := Regex.length_of_spans hdropped
  exact ⟨q, x, kept, dropped, hq, hx, hkept, hdropped, by omega, by omega,
    Regex.ne_nil_of_spans m.consumes hx hdropped⟩

lemma find_eq_none {p : Place} :
    m.find p = none ↔ ∀ q ∈ m.keeps.ends p, m.drops.ends q = [] := by
  rw [find, List.head?_eq_none_iff, List.flatMap_eq_nil_iff]
  simp only [List.map_eq_nil_iff]

/-- The match that is made of both parts. -/
lemma find_of_first {p q x : Place} {kept dropped : List Char} (hk : Regex.First m.keeps p q)
    (hd : Regex.First m.drops q x) (hkept : Spans p kept q) (hdropped : Spans q dropped x) :
    m.find p = some (kept.length, dropped.length) := by
  obtain ⟨l, hl⟩ := List.head?_eq_some_iff.mp hk
  obtain ⟨l', hl'⟩ := List.head?_eq_some_iff.mp hd
  have h1 := Regex.length_of_spans hkept
  have h2 := Regex.length_of_spans hdropped
  have h3 : p.after.length - q.after.length = kept.length := by omega
  have h4 : q.after.length - x.after.length = dropped.length := by omega
  simp [find, hl, hl', h3, h4]

variable (char m) in
/-- The cutting of a text: cell by cell where no match begins, match by match. -/
inductive Cut : List Char → List α → List (Piece α) → Prop
  | done {before} : Cut before [] []
  | plain {before a rest ps} (missed : m.find ⟨before, (a :: rest).map char⟩ = none)
    (tail : Cut (char a :: before) rest ps) : Cut before (a :: rest) (.plain a :: ps)
  | found {before kept dropped rest ps}
    (made : m.find ⟨before, (kept ++ dropped ++ rest).map char⟩ =
      some (kept.length, dropped.length))
    (takes : dropped ≠ [])
    (tail : Cut (((kept ++ dropped).map char).reverse ++ before) rest ps) :
    Cut before (kept ++ dropped ++ rest) (.found kept dropped :: ps)

lemma cut_skip (k : ℕ) (before : List Char) (t : List α) :
    m.cut char k before t = m.cut char 0 (((t.take k).map char).reverse ++ before) (t.drop k) := by
  induction t generalizing k before with
  | nil => cases k <;> simp [cut]
  | cons a t ih =>
    cases k with
    | zero => rfl
    | succ k => simp [cut, ih k]

/-- The cut where a match is made. -/
lemma cut_of_find {before : List Char} {kept dropped rest : List α}
    (h : m.find ⟨before, (kept ++ dropped ++ rest).map char⟩ = some (kept.length, dropped.length))
    (hne : dropped ≠ []) :
    m.cut char 0 before (kept ++ dropped ++ rest) = .found kept dropped ::
      m.cut char 0 (((kept ++ dropped).map char).reverse ++ before) rest := by
  obtain ⟨a, l, hl⟩ : ∃ a l, kept ++ dropped = a :: l :=
    List.exists_cons_of_ne_nil (by simp [hne])
  have hlen : kept.length + dropped.length - 1 = l.length := by
    have := congrArg List.length hl
    simp only [List.length_append, List.length_cons] at this
    omega
  have hkept : (a :: (l ++ rest)).take kept.length = kept := by
    rw [← List.cons_append, ← hl, List.append_assoc, List.take_left]
  have hdropped : ((a :: (l ++ rest)).drop kept.length).take dropped.length = dropped := by
    rw [← List.cons_append, ← hl, List.append_assoc, List.drop_left, List.take_left]
  rw [hl, List.cons_append] at h ⊢
  simp only [cut, h, hkept, hdropped, hlen]
  rw [cut_skip, List.take_left, List.drop_left]
  simp

/-- **The pieces are a cut of the text.** -/
theorem cut_cut (before : List Char) (t : List α) :
    Cut char m before t (m.cut char 0 before t) := by
  induction hn : t.length using Nat.strongRecOn generalizing before t with
  | ind n ih =>
    rcases t with _ | ⟨a, rest⟩
    · exact .done
    rcases hfind : m.find ⟨before, (a :: rest).map char⟩ with _ | ⟨k, d⟩
    · simp only [cut, hfind]
      exact .plain hfind (ih rest.length (by simp [← hn]) _ _ rfl)
    · obtain ⟨q, x, cs, ds, -, -, hcs, hds, rfl, rfl, hne⟩ := spans_of_find hfind
      -- the cells that show the match
      have hshow : (a :: rest).map char = cs ++ ds ++ x.after := by
        have := hcs.after
        rw [hds.after] at this
        rw [List.append_assoc]
        exact this
      obtain ⟨shown, after, hsplit, hshown, -⟩ := List.map_eq_append_iff.mp hshow
      obtain ⟨kept, dropped, rfl, rfl, rfl⟩ := List.map_eq_append_iff.mp hshown
      rw [List.length_map, List.length_map] at hfind
      rw [hsplit] at hfind hn ⊢
      have hne : dropped ≠ [] := by simpa using hne
      rw [cut_of_find hfind hne]
      refine .found hfind hne (ih after.length ?_ _ _ rfl)
      have := List.length_pos_iff.mpr hne
      simp only [← hn, List.length_append]
      omega

lemma cut_pieces (t : List α) : Cut char m [] t (m.pieces char t) := cut_cut [] t

variable {before : List Char} {t u v : List α} {ps : List (Piece α)}

/-- A cut loses nothing. -/
lemma Cut.source (h : Cut char m before t ps) : ps.flatMap Piece.source = t := by
  induction h with
  | done => rfl
  | plain _ _ ih => simp [Piece.source, ih]
  | found _ _ _ ih => simp [Piece.source, ih]

variable (char m) in
/-- A match that begins in `u` and ends in the text after it. -/
structure Straddles (before : List Char) (u v : List α) (kept dropped : List α) : Prop where
  parts : ∃ u₁ u₂ v₁ v₂, u = u₁ ++ u₂ ∧ v = v₁ ++ v₂ ∧ u₂ ≠ [] ∧ v₁ ≠ [] ∧
    kept ++ dropped = u₂ ++ v₁ ∧ m.find ⟨(u₁.map char).reverse ++ before, ((u₂ ++ v).map char)⟩ =
      some (kept.length, dropped.length)

/-- **A cut of two texts** is a cut of the first and one of the second, or a match straddles
them. -/
theorem Cut.split (h : Cut char m before (u ++ v) ps) :
    (∃ ps₁ ps₂, ps = ps₁ ++ ps₂ ∧ ps₁.flatMap Piece.source = u ∧
      Cut char m ((u.map char).reverse ++ before) v ps₂) ∨
    ∃ kept dropped, .found kept dropped ∈ ps ∧ Straddles char m before u v kept dropped := by
  generalize ht : u ++ v = t at h
  induction h generalizing u with
  | done =>
    obtain ⟨rfl, rfl⟩ := List.append_eq_nil_iff.mp ht
    exact .inl ⟨[], [], rfl, rfl, .done⟩
  | @plain before a rest ps missed tail ih =>
    rcases u with _ | ⟨b, u⟩
    · obtain rfl : v = a :: rest := ht
      exact .inl ⟨[], _, rfl, rfl, .plain missed tail⟩
    · rw [List.cons_append] at ht
      obtain ⟨rfl, ht'⟩ := List.cons.inj ht
      rcases ih ht' with ⟨ps₁, ps₂, rfl, hu, hv⟩ | ⟨kept, dropped, hp, ⟨u₁, u₂, v₁, v₂, rfl, hs⟩⟩
      · exact .inl ⟨.plain b :: ps₁, ps₂, rfl, by simp [Piece.source, hu], by simpa using hv⟩
      · refine .inr ⟨kept, dropped, List.mem_cons_of_mem _ hp, b :: u₁, u₂, v₁, v₂, rfl, ?_⟩
        simpa using hs
  | @found before kept dropped rest ps made takes tail ih =>
    rcases List.append_eq_append_iff.mp ht with ⟨v₁, hkd, rfl⟩ | ⟨u', rfl, hrest⟩
    · -- the text is parted in the match, or right before or behind it
      by_cases hu : u = []
      · subst hu
        rw [List.nil_append] at ht hkd
        refine .inl ⟨[], _, rfl, rfl, ?_⟩
        rw [ht]
        exact .found made takes tail
      by_cases hv : v₁ = []
      · subst hv
        rw [List.append_nil] at hkd
        exact .inl ⟨[.found kept dropped], ps, rfl, by simp [Piece.source, hkd],
          by simpa [← hkd] using tail⟩
      · refine .inr ⟨kept, dropped, by simp, [], u, v₁, rest, rfl, rfl, hu, hv, hkd, ?_⟩
        rw [ht]
        exact made
    · obtain h' := ih hrest.symm
      rcases h' with ⟨ps₁, ps₂, rfl, hu, hv⟩ | ⟨kept', dropped', hp, ⟨u₁, u₂, v₁, v₂, rfl, hs⟩⟩
      · exact .inl ⟨.found kept dropped :: ps₁, ps₂, rfl, by simp [Piece.source, hu],
          by simpa using hv⟩
      · refine .inr ⟨kept', dropped', List.mem_cons_of_mem _ hp,
          kept ++ dropped ++ u₁, u₂, v₁, v₂, by simp, ?_⟩
        simpa using hs

/-- Where a match is found the cut has it as a piece. -/
lemma Cut.mem_of_find {kept dropped rest : List α}
    (h : Cut char m before (kept ++ dropped ++ rest) ps)
    (hfind : m.find ⟨before, (kept ++ dropped ++ rest).map char⟩ =
      some (kept.length, dropped.length)) : .found kept dropped ∈ ps := by
  generalize ht : kept ++ dropped ++ rest = t at h hfind
  cases h with
  | done =>
    obtain ⟨-, -, -, dropped', -, -, -, -, -, hlen, hne⟩ := spans_of_find hfind
    obtain ⟨⟨rfl, rfl⟩, rfl⟩ := by simpa only [List.append_eq_nil_iff] using ht
    exact absurd (List.length_eq_zero_iff.mp hlen) hne
  | plain missed tail =>
    rw [missed] at hfind
    simp at hfind
  | @found _ kept' dropped' rest' ps made takes tail =>
    obtain ⟨hk, hd⟩ := Prod.mk.inj (Option.some.inj (hfind.symm.trans made))
    obtain ⟨hkd, -⟩ := List.append_inj ht (by simp [hk, hd])
    obtain ⟨rfl, rfl⟩ := List.append_inj hkd hk
    exact List.mem_cons_self

/-- A match stands in the text. -/
lemma Cut.infix_of_mem (h : Cut char m before t ps) {kept dropped : List α}
    (hp : .found kept dropped ∈ ps) : ∃ l r, t = l ++ (kept ++ (dropped ++ r)) := by
  obtain ⟨ps₁, ps₂, rfl⟩ := List.append_of_mem hp
  refine ⟨ps₁.flatMap Piece.source, ps₂.flatMap Piece.source, ?_⟩
  rw [← h.source]
  simp [Piece.source]

/-! ### What a replacement leaves -/

variable {marker w x y : List α}

/-- The pieces are found by what the cells show. -/
lemma cut_map {char' : β → Char} {g : α → β} (hg : ∀ a, char' (g a) = char a) (k : ℕ)
    (before : List Char) (t : List α) :
    m.cut char' k before (t.map g) = (m.cut char k before t).map (Piece.map g) := by
  have hshow : ∀ l : List α, (l.map g).map char' = l.map char := by
    intro l
    rw [List.map_map]
    exact List.map_congr_left fun a _ => hg a
  induction t generalizing k before with
  | nil => cases k <;> simp [cut]
  | cons a t ih =>
    cases k with
    | succ k => simp only [List.map_cons, cut, hg, ih]
    | zero =>
      have hplace : (g a :: t.map g).map char' = (a :: t).map char := hshow (a :: t)
      rw [List.map_cons, cut, cut, hplace]
      split
      · rw [ih, hg, ← List.map_cons, ← List.map_take, ← List.map_drop, ← List.map_take]
        rfl
      · rw [ih, hg]
        rfl

/-- **Replacing does not look at more than what the cells show.** -/
theorem map_replaceAll {char' : β → Char} {g : α → β} (hg : ∀ a, char' (g a) = char a)
    (marker t : List α) :
    (m.replaceAll char marker t).map g = m.replaceAll char' (marker.map g) (t.map g) := by
  have htarget : ∀ pc : Piece α,
      (pc.target marker).map g = (pc.map g).target (marker.map g) := by
    intro pc
    cases pc <;> simp [Piece.target, Piece.map]
  simp only [replaceAll, pieces, cut_map hg, List.map_flatMap, List.flatMap_map, htarget]

/-- A cell that is not in a text parts the places where the text stands. -/
lemma infix_of_infix_cons {a : α} (ha : a ∉ w) (h : w <:+: x ++ a :: y) : w <:+: x ∨ w <:+: y := by
  obtain ⟨l, r, h⟩ := h
  rcases List.append_eq_append_iff.mp h with ⟨u, hx, hr⟩ | ⟨u, hw, hr⟩
  · exact .inl ⟨l, u, hx.symm⟩
  · rcases u with _ | ⟨b, u⟩
    · exact .inl ⟨l, [], by simpa using hw⟩
    · obtain ⟨rfl, rfl⟩ := List.cons.inj (hr.trans (List.cons_append ..))
      rcases List.append_eq_append_iff.mp hw with ⟨c, -, rfl⟩ | ⟨c, -, hc⟩
      · simp at ha
      · rcases c with _ | ⟨b, c⟩
        · obtain rfl : a :: u = w := hc
          simp at ha
        · obtain ⟨-, rfl⟩ := List.cons.inj (hc.trans (List.cons_append ..))
          exact .inr ⟨c, r, rfl⟩

/-- **A text that a marker only parts** is in what a replacement leaves if it was in the text, or
is in the marker. -/
theorem infix_of_infix_replaceAll {a z : α} {inner : List α}
    (hmarker : marker = a :: (inner ++ [z])) (ha : a ∉ w) (hz : z ∉ w)
    (h : w <:+: m.replaceAll char marker t) :
    w <:+: t ∨ w <:+: marker := by
  have hpieces : ∀ (ps : List (Piece α)) x, w <:+: x ++ ps.flatMap (Piece.target marker) →
      w <:+: x ++ ps.flatMap Piece.source ∨ w <:+: marker := by
    intro ps
    induction ps with
    | nil => exact fun x h => .inl h
    | cons pc ps ih =>
      intro x h
      cases pc with
      | plain cell =>
        have h' := ih (x ++ [cell]) (by simpa [Piece.target] using h)
        simpa [Piece.source] using h'
      | found kept dropped =>
        have h' : w <:+: (x ++ kept) ++ a :: (inner ++ z :: ps.flatMap (Piece.target marker)) := by
          simpa [Piece.target, hmarker] using h
        rcases infix_of_infix_cons ha h' with h' | h'
        · refine .inl (h'.trans ?_)
          exact ⟨[], dropped ++ ps.flatMap Piece.source, by simp [Piece.source]⟩
        rcases infix_of_infix_cons hz h' with h' | h'
        · exact .inr (h'.trans ⟨[a], [z], by simp [hmarker]⟩)
        · rcases ih [] h' with h' | h'
          · refine .inl (h'.trans ?_)
            exact ⟨x ++ kept ++ dropped, [], by simp [Piece.source]⟩
          · exact .inr h'
  have h' := hpieces (m.pieces char t) [] h
  rwa [List.nil_append, (cut_pieces t).source] at h'

/-- Of the cells that the marker has none of, a replacement leaves those it does not drop. -/
lemma countP_replaceAll {P : α → Bool} (hmarker : ∀ c ∈ marker, P c = false) (t : List α) :
    (m.replaceAll char marker t).countP P + ((m.pieces char t).flatMap Piece.dropped).countP P =
      t.countP P := by
  have hpieces : ∀ ps : List (Piece α), (ps.flatMap (Piece.target marker)).countP P +
      (ps.flatMap Piece.dropped).countP P = (ps.flatMap Piece.source).countP P := by
    have hzero : marker.countP P = 0 := List.countP_eq_zero.mpr fun c hc => by simp [hmarker c hc]
    intro ps
    induction ps with
    | nil => rfl
    | cons pc ps ih =>
      cases pc <;>
        simp only [List.flatMap_cons, Piece.target, Piece.source, Piece.dropped,
          List.countP_append, List.countP_nil, hzero] <;> omega
  have h := hpieces (m.pieces char t)
  rwa [(cut_pieces t).source] at h

/-! ### A part that no match drops -/

variable {S B A : List α}

lemma Cut.head?_target (h : Cut char m before t ps) {c : α}
    (hc : c ∈ (ps.flatMap (Piece.target marker)).head?) (hmarker : marker ≠ []) :
    c ∈ t.head? ∨ c ∈ marker.head? := by
  cases h with
  | done => simp at hc
  | plain => exact .inl (by simpa [Piece.target] using hc)
  | @found _ kept dropped rest ps _ _ _ =>
    rcases kept with _ | ⟨a, kept⟩
    · refine .inr ?_
      obtain ⟨z, marker, rfl⟩ := List.exists_cons_of_ne_nil hmarker
      simpa [Piece.target] using hc
    · exact .inl (by simpa [Piece.target] using hc)

/-- What is written for the pieces is from the text or from the marker. -/
lemma Cut.mem_target (h : Cut char m before t ps) {c : α}
    (hc : c ∈ ps.flatMap (Piece.target marker)) : c ∈ t ∨ c ∈ marker := by
  obtain ⟨pc, hpc, hc⟩ := List.mem_flatMap.mp hc
  have hsource : ∀ c ∈ pc.source, c ∈ t := fun c hc => by
    rw [← h.source]
    exact List.mem_flatMap.mpr ⟨pc, hpc, hc⟩
  cases pc with
  | plain a => exact .inl (hsource c hc)
  | found kept dropped =>
    rcases List.mem_append.mp hc with hc | hc
    · exact .inl (hsource c (List.mem_append_left _ hc))
    · exact .inr hc

/-- What stands before a part, when the replacements have made `A'` of `A`. -/
structure Before (marker A A' : List α) : Prop where
  mem : ∀ c ∈ A', c ∈ A ∨ c ∈ marker
  nil : A' = [] → A = []
  last : ∀ c ∈ A'.getLast?, c ∈ A.getLast? ∨ c ∈ marker.getLast?

/-- What stands behind a part, when the replacements have made `B'` of `B`. -/
structure Behind (marker B B' : List α) : Prop where
  mem : ∀ c ∈ B', c ∈ B ∨ c ∈ marker
  head : ∀ c ∈ B'.head?, c ∈ B.head? ∨ c ∈ marker.head?

lemma Before.cons {b : α} {A' : List α} (h : Before marker A A') :
    Before marker (b :: A) (b :: A') where
  mem c hc := by
    rcases List.mem_cons.mp hc with rfl | hc
    · exact .inl (by simp)
    · exact (h.mem c hc).imp_left (List.mem_cons_of_mem _)
  nil hnil := by simp at hnil
  last c hc := by
    rcases A' with _ | ⟨z, A'⟩
    · obtain rfl := h.nil rfl
      exact .inl hc
    · rw [List.getLast?_cons_cons] at hc
      refine (h.last c hc).imp_left fun hlast => ?_
      rcases A with _ | ⟨y, A⟩
      · simp at hlast
      · rwa [List.getLast?_cons_cons]

lemma Before.append {A' : List α} (h : Before marker A A') (l : List α) :
    Before marker (l ++ A) (l ++ A') := by
  induction l with
  | nil => exact h
  | cons b l ih => exact ih.cons

/-- A match before the text `A` leaves what it keeps and the marker. -/
lemma Before.found {kept dropped A' : List α} (h : Before marker A A') (hmarker : marker ≠ []) :
    Before marker (kept ++ dropped ++ A) (kept ++ marker ++ A') := by
  rw [List.append_assoc, List.append_assoc]
  refine Before.append ⟨?_, by simp [hmarker], ?_⟩ kept
  · intro c hc
    rcases List.mem_append.mp hc with hc | hc
    · exact .inr hc
    · exact (h.mem c hc).imp_left (List.mem_append_right _)
  · intro c hc
    by_cases hA' : A' = []
    · subst hA'
      exact .inr (by simpa using hc)
    · rw [List.getLast?_append_of_ne_nil _ hA'] at hc
      refine (h.last c hc).imp_left fun hlast => ?_
      by_cases hA : A = []
      · simp [hA] at hlast
      · rwa [List.getLast?_append_of_ne_nil _ hA]

lemma Cut.behind (h : Cut char m before t ps) (hmarker : marker ≠ []) :
    Behind marker t (ps.flatMap (Piece.target marker)) :=
  ⟨fun _ hc => h.mem_target hc, fun _ hc => h.head?_target hc hmarker⟩

/-- A match that keeps some of the text `k` and drops what follows it. -/
lemma Cut.behind_kept (h : Cut char m before t ps) (hmarker : marker ≠ []) (k dropped : List α) :
    Behind marker (k ++ (dropped ++ t)) (k ++ (marker ++ ps.flatMap (Piece.target marker))) where
  mem c hc := by
    rcases List.mem_append.mp hc with hc | hc
    · exact .inl (by simp [hc])
    rcases List.mem_append.mp hc with hc | hc
    · exact .inr hc
    · exact (h.mem_target hc).imp_left fun h => by simp [h]
  head c hc := by
    obtain ⟨z, marker, rfl⟩ := List.exists_cons_of_ne_nil hmarker
    rcases k with _ | ⟨b, k⟩
    · exact .inr (by simpa using hc)
    · exact .inl (by simpa using hc)

/-- A part at the front, of which nothing is dropped, is kept if what follows it is. -/
lemma kept_of_front {k dropped rest : List α} (ht : S ++ B = k ++ (dropped ++ rest))
    (hne : dropped ≠ []) (hS : ∀ c ∈ dropped, c ∉ S) :
    ∃ k', k = S ++ k' ∧ B = k' ++ (dropped ++ rest) := by
  rcases List.append_eq_append_iff.mp ht with ⟨k', hk, hB⟩ | ⟨S', hS', hB⟩
  · exact ⟨k', hk, hB⟩
  · -- what is left of the part would be dropped
    rcases S' with _ | ⟨b, S'⟩
    · exact ⟨[], by simpa using hS'.symm, by simpa using hB.symm⟩
    · obtain ⟨d, dropped, rfl⟩ := List.exists_cons_of_ne_nil hne
      obtain ⟨rfl, -⟩ := List.cons.inj hB
      exact absurd (by simp [hS']) (hS d (by simp))

/-- A part at the front that no match drops stays at the front. -/
lemma Cut.keeps_front (h : Cut char m before (S ++ B) ps) (hmarker : marker ≠ [])
    (hS : ∀ pc ∈ ps, ∀ c ∈ pc.dropped, c ∉ S) :
    ∃ B', ps.flatMap (Piece.target marker) = S ++ B' ∧ Behind marker B B' := by
  generalize ht : S ++ B = t at h
  induction h generalizing S with
  | done =>
    obtain ⟨rfl, rfl⟩ := List.append_eq_nil_iff.mp ht
    exact ⟨[], rfl, by simp, by simp⟩
  | @plain before a rest ps missed tail ih =>
    rcases S with _ | ⟨b, S⟩
    · obtain rfl : B = a :: rest := ht
      exact ⟨_, rfl, (Cut.plain missed tail).behind hmarker⟩
    · rw [List.cons_append] at ht
      obtain ⟨rfl, ht'⟩ := List.cons.inj ht
      obtain ⟨B', hB, hbehind⟩ := ih
        (fun pc hpc c hc hcS => hS pc (by simp [hpc]) c hc (by simp [hcS])) ht'
      exact ⟨B', by simp [Piece.target, hB], hbehind⟩
  | @found before kept dropped rest ps made takes tail ih =>
    obtain ⟨k, rfl, rfl⟩ := kept_of_front (by rw [ht, List.append_assoc]) takes
      fun c hc => hS _ List.mem_cons_self c hc
    exact ⟨_, by simp [Piece.target], tail.behind_kept hmarker k dropped⟩

/-- **A part that no match drops stays**, between what is made of the text before it and of the text
behind it. -/
theorem Cut.keeps (h : Cut char m before (A ++ (S ++ B)) ps) (hmarker : marker ≠ [])
    (hS : ∀ pc ∈ ps, ∀ c ∈ pc.dropped, c ∉ S) (hne : S ≠ []) :
    ∃ A' B', ps.flatMap (Piece.target marker) = A' ++ (S ++ B') ∧ Before marker A A' ∧
      Behind marker B B' := by
  have hempty : Before marker ([] : List α) [] := ⟨by simp, fun _ => rfl, by simp⟩
  generalize ht : A ++ (S ++ B) = t at h
  induction h generalizing A with
  | done => simp [hne] at ht
  | @plain before a rest ps missed tail ih =>
    rcases A with _ | ⟨b, A⟩
    · rw [List.nil_append] at ht
      have hcut : Cut char m before (S ++ B) (.plain a :: ps) := ht ▸ .plain missed tail
      obtain ⟨B', hB, hbehind⟩ := hcut.keeps_front hmarker hS
      exact ⟨[], B', hB, hempty, hbehind⟩
    · rw [List.cons_append] at ht
      obtain ⟨rfl, ht'⟩ := List.cons.inj ht
      obtain ⟨A', B', hB, hA, hbehind⟩ := ih
        (fun pc hpc => hS pc (List.mem_cons_of_mem _ hpc)) ht'
      exact ⟨b :: A', B', by simp [Piece.target, hB], hA.cons, hbehind⟩
  | @found before kept dropped rest ps made takes tail ih =>
    have hrest : ∀ pc ∈ ps, ∀ c ∈ pc.dropped, c ∉ S := fun pc hpc =>
      hS pc (List.mem_cons_of_mem _ hpc)
    have hdropped : ∀ c ∈ dropped, c ∉ S := fun c hc => hS _ List.mem_cons_self c hc
    rcases List.append_eq_append_iff.mp ht with ⟨l, hl, hB⟩ | ⟨A₂, rfl, hA₂⟩
    · rcases l with _ | ⟨a, l⟩
      · -- the match ends where the part begins
        rw [List.append_nil] at hl
        rw [List.nil_append] at hB
        obtain ⟨B', hB', hbehind⟩ := (hB ▸ tail).keeps_front hmarker hrest
        refine ⟨kept ++ marker ++ [], B', by simp [Piece.target, hB'], ?_, hbehind⟩
        rw [← hl, ← List.append_nil (kept ++ dropped)]
        exact hempty.found hmarker
      · -- the part begins in what the match keeps, and then is kept as a whole
        have ha : a ∈ S := by
          obtain ⟨b, S, rfl⟩ := List.exists_cons_of_ne_nil hne
          obtain ⟨rfl, -⟩ := List.cons.inj hB
          simp
        rcases List.append_eq_append_iff.mp hl with ⟨k, -, hk⟩ | ⟨k, rfl, hk⟩
        · exact absurd ha (hdropped a (by simp [hk]))
        · rw [hk, List.append_assoc] at hB
          obtain ⟨k, rfl, rfl⟩ := kept_of_front hB takes hdropped
          exact ⟨A, _, by simp [Piece.target], by simpa using hempty.append A,
            tail.behind_kept hmarker k dropped⟩
    · obtain ⟨A', B', hB', hA, hbehind⟩ := ih hrest hA₂.symm
      exact ⟨kept ++ marker ++ A', B', by simp [Piece.target, hB'], hA.found hmarker, hbehind⟩

end Mask

end Workbench.Lib
