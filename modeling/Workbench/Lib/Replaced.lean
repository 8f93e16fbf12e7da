import Workbench.Lib.Masking
import Workbench.Lib.Stretch

/-!
The places of a text that a replacement has left.

Each of them stands in a marker, or in a stretch that the text before the replacement has as well.
Such a stretch begins at the start of the text or behind what a match drops, and it ends where a
match drops something or at the end of the text. A text in which no match begins is left as it is.
-/

namespace Workbench.Lib.Mask

variable (m : Mask) (marker : List Char)

/-- Behind the text `l`, written backwards, a match keeps `k` and drops `d`; `r` follows. -/
def Matches (l k d r : List Char) : Prop :=
  m.find ⟨l, k ++ d ++ r⟩ = some (k.length, d.length)

/-- What stands before a stretch in the two texts, when `behind` follows it in the first. -/
inductive Opens (behind : List Char) : List Char → List Char → Prop
  | start : Opens behind [] []
  | dropped {l k d l'} (made : m.Matches l k d behind) :
    Opens behind ((k ++ d).reverse ++ l) (marker.reverse ++ l')

/-- What stands behind a stretch in the two texts, when `before` stands before it in the first. -/
inductive Closes (before : List Char) : List Char → List Char → Prop
  | finish : Closes before [] []
  | dropped {l k d r r'} (kept : before = k.reverse ++ l) (made : m.Matches l k d r) :
    Closes before (d ++ r) (marker ++ r')

/-- The text is the end of what a match keeps. -/
def Kept (v : List Char) : Prop := ∃ l k d r, m.Matches l (k ++ v) d r

/-- A place of the text that a replacement has made of `t`. -/
inductive Spot (t : List Char) : Place → Prop
  | marked {x y l r} (parts : marker = x ++ y) (more : y ≠ []) :
    Spot t ⟨x.reverse ++ l, y ++ r⟩
  | shared {old new : Place} {u v} (more : v ≠ [])
    (stands : t = old.before.reverse ++ (u ++ (v ++ old.after)))
    (opens : Opens m marker (u ++ (v ++ old.after)) old.before new.before)
    (closes : Closes m marker ((u ++ v).reverse ++ old.before) old.after new.after)
    (missed : m.find (old.around u v) = none ∨ m.Kept v) : Spot t (new.around u v)

variable {m marker} {before t : List Char} {ps : List (Piece Char)}

/-- The match that is made is the first of the second part, behind one of the first part. -/
lemma Matches.first {l k d r : List Char} (h : m.Matches l k d r) :
    ⟨k.reverse ++ l, d ++ r⟩ ∈ m.keeps.ends ⟨l, k ++ d ++ r⟩ ∧
      Regex.First m.drops ⟨k.reverse ++ l, d ++ r⟩ ⟨d.reverse ++ (k.reverse ++ l), r⟩ := by
  rw [Matches, find, List.head?_flatMap] at h
  obtain ⟨q, hq, hfirst⟩ := List.exists_of_findSome?_eq_some h
  rw [List.head?_map] at hfirst
  obtain ⟨x, hx, hlen⟩ := Option.map_eq_some_iff.mp hfirst
  obtain ⟨hk, hd⟩ := Prod.mk.inj hlen
  obtain ⟨k', hk'⟩ := Regex.spans_of_mem_ends hq
  obtain ⟨d', hd'⟩ := Regex.spans_of_mem_ends (List.mem_of_head? hx)
  have h1 := Regex.length_of_spans hk'
  have h2 := Regex.length_of_spans hd'
  have hafter := hk'.after
  rw [hd'.after] at hafter
  obtain ⟨rfl, hrest⟩ := List.append_inj (hafter.symm.trans (List.append_assoc k d r)) (by omega)
  obtain ⟨rfl, hr⟩ := List.append_inj hrest (by omega)
  obtain rfl : q = ⟨k'.reverse ++ l, d' ++ r⟩ := Place.ext hk'.before (by rw [hd'.after, hr])
  obtain rfl : x = ⟨d'.reverse ++ (k'.reverse ++ l), r⟩ := Place.ext hd'.before hr
  exact ⟨hq, hx⟩

lemma Matches.drops_ne_nil {l k d r : List Char} (h : m.Matches l k d r) : d ≠ [] :=
  Regex.ne_nil_of_spans m.consumes (List.mem_of_head? h.first.2) ⟨rfl, rfl⟩

variable (marker) in
/-- A text goes on up to what the next match drops. -/
lemma Cut.closes (h : Cut id m before t ps) : ∃ v a a', t = v ++ a ∧
    ps.flatMap (Piece.target marker) = v ++ a' ∧ Closes m marker (v.reverse ++ before) a a' := by
  induction h with
  | done => exact ⟨[], [], [], rfl, rfl, .finish⟩
  | @plain before c rest ps missed tail ih =>
    obtain ⟨v, a, a', rfl, hout, hcloses⟩ := ih
    refine ⟨c :: v, a, a', rfl, by simp [Piece.target, hout], ?_⟩
    simpa using hcloses
  | @found before kept dropped rest ps made takes tail ih =>
    refine ⟨kept, dropped ++ rest, marker ++ ps.flatMap (Piece.target marker), by simp,
      by simp [Piece.target], .dropped rfl ?_⟩
    rwa [List.map_id] at made

/-- A place in a text of two parts stands before the end of the first, or in the second. -/
lemma split_append {a b x y : List Char} (h : a ++ b = x ++ y) :
    (∃ z, x = a ++ z ∧ b = z ++ y) ∨ ∃ z, z ≠ [] ∧ a = x ++ z ∧ y = z ++ b := by
  rcases List.append_eq_append_iff.mp h with ⟨z, hx, hb⟩ | ⟨z, ha, hy⟩
  · exact .inl ⟨z, hx, hb⟩
  · by_cases hz : z = []
    · subst hz
      exact .inl ⟨[], by simpa using ha.symm, by simpa using hy.symm⟩
    · exact .inr ⟨z, hz, ha, hy⟩

/-- **The places of what is written for a cut.** -/
theorem Cut.spot (h : Cut id m before t ps) {u b b' x y : List Char}
    (hbefore : before = u.reverse ++ b) (hopens : Opens m marker (u ++ t) b b')
    (hout : ps.flatMap (Piece.target marker) = x ++ y) (hy : y ≠ []) :
    Spot m marker (b.reverse ++ (u ++ t)) ⟨x.reverse ++ (u.reverse ++ b'), y⟩ := by
  induction h generalizing u b b' x with
  | done => simp [hy] at hout
  | @plain before c rest ps missed tail ih =>
    have hout' : c :: ps.flatMap (Piece.target marker) = x ++ y := by
      simpa [Piece.target] using hout
    rw [List.map_id] at missed
    rcases x with _ | ⟨d, x⟩
    · obtain ⟨v, a, a', rfl, htail, hcloses⟩ := tail.closes marker
      rw [List.nil_append] at hout'
      subst hout' hbefore
      have hspot := @Spot.shared m marker _ ⟨b, a⟩ ⟨b', a'⟩ u (c :: v) (by simp) rfl hopens
        (by simpa using hcloses) (.inl missed)
      simpa [Place.around, htail] using hspot
    · rw [List.cons_append] at hout'
      obtain ⟨rfl, htail⟩ := List.cons.inj hout'
      have hspot := ih (u := u ++ [c]) (b := b) (by simp [hbefore]) (by simpa using hopens) htail
      simpa using hspot
  | @found before kept dropped rest ps made takes tail ih =>
    have hmade : m.Matches before kept dropped rest := by rwa [List.map_id] at made
    have hout' : kept ++ (marker ++ ps.flatMap (Piece.target marker)) = x ++ y := by
      simpa [Piece.target] using hout
    rcases split_append hout' with ⟨z, rfl, hz⟩ | ⟨k, hk, rfl, rfl⟩
    · rcases split_append hz with ⟨x, rfl, htail⟩ | ⟨w, hw, hparts, rfl⟩
      · -- behind the marker
        have hbehind : Opens m marker ([] ++ rest) ((kept ++ dropped).reverse ++ before)
            (marker.reverse ++ (kept.reverse ++ (u.reverse ++ b'))) := .dropped hmade
        have hspot := ih (u := []) (by simp) hbehind htail
        simpa [hbefore] using hspot
      · have hspot := Spot.marked (m := m) (t := b.reverse ++ (u ++ (kept ++ dropped ++ rest)))
          (l := kept.reverse ++ (u.reverse ++ b'))
          (r := ps.flatMap (Piece.target marker)) hparts hw
        simpa using hspot
    · -- in what the match keeps
      have hcloses : Closes m marker ((u ++ x ++ k).reverse ++ b) (dropped ++ rest)
          (marker ++ ps.flatMap (Piece.target marker)) :=
        .dropped (by simp [hbefore]) hmade
      have hspot := @Spot.shared m marker _ ⟨b, dropped ++ rest⟩
        ⟨b', marker ++ ps.flatMap (Piece.target marker)⟩ (u ++ x) k hk rfl
        (by simpa using hopens) hcloses (.inr ⟨before, x, dropped, rest, hmade⟩)
      simpa [Place.around] using hspot

/-! ### A text without matches -/

/-- No match begins in the text. -/
def Free (m : Mask) (t : List Char) : Prop := ∀ x y, t = x ++ y → m.find ⟨x.reverse, y⟩ = none

lemma find_nil (m : Mask) (b : List Char) : m.find ⟨b, []⟩ = none := by
  cases hfind : m.find ⟨b, []⟩ with
  | none => rfl
  | some kd =>
    obtain ⟨q, x, kept, dropped, -, -, hkept, hdropped, -, -, hne⟩ := spans_of_find hfind
    have hnil := (Regex.spans_append hkept hdropped).after
    simp [hne] at hnil

lemma free_replaceAll {m' : Mask} (h : ∀ p, Spot m marker t p → m'.find p = none) :
    m'.Free (m.replaceAll id marker t) := by
  intro x y hout
  rcases y with _ | ⟨c, y⟩
  · exact find_nil m' _
  · have hspot := (cut_pieces t).spot (u := []) (b := []) rfl .start hout (by simp)
    exact h _ (by simpa using hspot)

lemma replaceAll_of_free (h : m.Free t) (marker : List Char) : m.replaceAll id marker t = t := by
  have hcut : ∀ (before t : List Char) (ps : List (Piece Char)), Cut id m before t ps →
      (∀ x y, t = x ++ y → m.find ⟨x.reverse ++ before, y⟩ = none) →
      ps.flatMap (Piece.target marker) = t := by
    intro before t ps hcut hfree
    induction hcut with
    | done => rfl
    | @plain before a rest ps missed tail ih =>
      have hrest := ih fun x y hxy => by simpa using hfree (a :: x) y (by simp [hxy])
      simp [Piece.target, hrest]
    | found made takes tail ih =>
      rw [List.map_id] at made
      have hnone := made.symm.trans (hfree [] _ rfl)
      cases hnone
  exact hcut [] t _ (cut_pieces t) fun x y hxy => by simpa using h x y hxy

end Workbench.Lib.Mask
