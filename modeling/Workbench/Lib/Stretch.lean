import Workbench.Lib.Regex

/-!
A stretch of text that stands in two texts.

An expression that takes none of the characters behind the stretch in the second text ends inside
the stretch there. It ends at the same places of the stretch in the first text, as long as the two
ends of the stretch are no word boundaries in the second text that are none in the first.
-/

namespace Workbench.Lib

/-- The place between two parts of a text that is put in at a place. -/
def Place.around (p : Place) (u v : List Char) : Place := ⟨u.reverse ++ p.before, v ++ p.after⟩

namespace Regex

/-- The expression takes no character of `stops`. If it may look around, it looks at word boundaries
and at the next character, and ahead to a word boundary. -/
def stays (stops : List Char) (looks : Bool) : Regex → Bool
  | empty => true
  | one isIn => stops.all (!isIn ·)
  | seq r s => r.stays stops looks && s.stays stops looks
  | alt r s => r.stays stops looks && s.stays stops looks
  | star r => r.stays stops looks
  | boundary => looks
  | ahead (seq r boundary) => looks && r.stays stops looks
  | notAhead empty => true
  | notAhead (one _) => looks
  | _ => false

/-- The text `shared` stands at the place `old` in one text and at the place `new` in another. -/
structure Stretch (stops : List Char) (looks : Bool) (old new : Place) (shared : List Char) :
    Prop where
  stopped : ∀ c ∈ new.after.head?, c ∈ stops
  opens : looks → atBoundary (new.around [] shared) → atBoundary (old.around [] shared)
  closes : looks → old.after.head? = new.after.head? ∨ ¬ atBoundary (new.around shared [])

/-- A text in one place is a stretch. -/
lemma Stretch.refl {p : Place} {stops shared : List Char} {looks : Bool}
    (h : ∀ c ∈ p.after.head?, c ∈ stops) : Stretch stops looks p p shared :=
  ⟨h, fun _ hb => hb, fun _ => .inl rfl⟩

/-- What comes next is the same in both texts. -/
def Sees (old new : Place) (v : List Char) : Prop := v ≠ [] ∨ old.after.head? = new.after.head?

variable {stops : List Char} {looks : Bool} {old new q : Place} {shared u v w : List Char}
variable {r : Regex}

lemma Sees.append (h : Sees old new v) : Sees old new (w ++ v) := by
  rcases h with h | h
  · exact .inl (by simp [h])
  · exact .inr h

lemma Sees.head?_eq (h : Sees old new v) :
    (old.around u v).after.head? = (new.around u v).after.head? := by
  rcases v with _ | ⟨c, v⟩
  · exact h.resolve_left (by simp)
  · rfl

lemma spans_around (p : Place) (u w v : List Char) :
    Spans (p.around u (w ++ v)) w (p.around (u ++ w) v) where
  after := by simp [Place.around]
  before := by simp [Place.around]

/-- A word boundary of the stretch in the second text is one in the first. -/
lemma Stretch.boundary (h : Stretch stops looks old new shared) (hlooks : looks)
    (huv : u ++ v = shared) (hsees : Sees old new v) (hb : atBoundary (new.around u v)) :
    atBoundary (old.around u v) := by
  rcases List.eq_nil_or_concat u with rfl | ⟨u, c, rfl⟩
  · obtain rfl : v = shared := huv
    exact h.opens hlooks hb
  · have hbefore (p : Place) : (p.around (u ++ [c]) v).before.head? = some c := by
      simp [Place.around]
    rw [List.concat_eq_append] at hb ⊢
    rw [atBoundary, hbefore] at hb ⊢
    rwa [hsees.head?_eq]

/-- At a word boundary of the second text, the next characters are the same. -/
lemma Stretch.sees (h : Stretch stops looks old new shared) (hlooks : looks)
    (huv : u ++ v = shared) (hb : atBoundary (new.around u v)) : Sees old new v := by
  rcases v with _ | ⟨c, v⟩
  · rw [List.append_nil] at huv
    subst huv
    exact .inr ((h.closes hlooks).resolve_right (by simpa using hb))
  · exact .inl (by simp)

/-- The expression ends inside the stretch, and at the same place of it in both texts. -/
def Agrees (looks : Bool) (old new : Place) (r : Regex) (u v : List Char) (q : Place) : Prop :=
  ∃ w v', v = w ++ v' ∧ q = new.around (u ++ w) v' ∧
    ((looks → Sees old new v') → old.around (u ++ w) v' ∈ r.ends (old.around u v))

lemma Agrees.here (h : (looks → Sees old new v) → old.around u v ∈ r.ends (old.around u v)) :
    Agrees looks old new r u v (new.around u v) := ⟨[], v, rfl, by simp, by simpa using h⟩

lemma Stretch.agrees_one {isIn : Char → Bool} (h : Stretch stops looks old new shared)
    (hr : (one isIn).stays stops looks) (hq : q ∈ (one isIn).ends (new.around u v)) :
    Agrees looks old new (one isIn) u v q := by
  obtain ⟨c, hc, hs⟩ := mem_ends_one.1 hq
  rcases v with _ | ⟨d, v⟩
  · -- the character behind the stretch is a stop
    have hafter : new.after = [c] ++ q.after := hs.after
    have hnot := List.all_eq_true.mp hr c (h.stopped c (by simp [hafter]))
    simp [hc] at hnot
  · obtain ⟨rfl, hafter⟩ : d = c ∧ v ++ new.after = q.after := by
      simpa [Place.around] using hs.after
    refine ⟨[d], v, rfl, ?_, fun _ => ?_⟩
    · refine Place.ext ?_ hafter.symm
      rw [hs.before]
      simp [Place.around]
    · exact mem_ends_one.2 ⟨d, hc, spans_around old u [d] v⟩

/-- If each round of a repetition ends inside the stretch, so does the repetition. -/
lemma agrees_star (hround : ∀ {u v q}, u ++ v = shared → q ∈ r.ends (new.around u v) →
      Agrees looks old new r u v q)
    (huv : u ++ v = shared) (hq : q ∈ (star r).ends (new.around u v)) :
    Agrees looks old new (star r) u v q := by
  induction hn : v.length using Nat.strongRecOn generalizing u v with
  | ind n ih =>
    rcases mem_ends_star.1 hq with ⟨x, hx, hlt, hq⟩ | rfl
    · obtain ⟨w, v₁, rfl, rfl, hold⟩ := hround huv hx
      have hw : 0 < w.length := by
        simp only [Place.around, List.length_append] at hlt
        omega
      have hshort : v₁.length < n := by
        rw [← hn, List.length_append]
        omega
      obtain ⟨w', v', rfl, rfl, hold'⟩ := ih _ hshort (by rw [← huv]; simp) hq rfl
      refine ⟨w ++ w', v', by simp, by simp, fun hsees => mem_ends_star.2 (.inl ?_)⟩
      refine ⟨_, hold fun hlooks => (hsees hlooks).append, ?_, by simpa using hold' hsees⟩
      simp only [Place.around, List.length_append]
      omega
    · exact .here fun _ => mem_ends_star.2 (.inr rfl)

/-- **A match inside the stretch** in the second text is a match in the first. -/
theorem Stretch.agrees (h : Stretch stops looks old new shared) (hr : r.stays stops looks)
    (huv : u ++ v = shared) (hq : q ∈ r.ends (new.around u v)) :
    Agrees looks old new r u v q := by
  -- the cases are the lines of the definition of what stays
  induction r using stays.induct generalizing u v q with
  | case1 =>
    obtain rfl := mem_ends_empty.1 hq
    exact .here fun _ => mem_ends_empty.2 rfl
  | case2 isIn => exact h.agrees_one hr hq
  | case3 r s ihr ihs =>
    obtain ⟨hr, hs⟩ := Bool.and_eq_true_iff.mp hr
    obtain ⟨x, hx, hq⟩ := mem_ends_seq.1 hq
    obtain ⟨w, v₁, rfl, rfl, hold⟩ := ihr hr huv hx
    obtain ⟨w', v', rfl, rfl, hold'⟩ := ihs hs (by rw [← huv]; simp) hq
    refine ⟨w ++ w', v', by simp, by simp, fun hsees => ?_⟩
    refine mem_ends_seq.2 ⟨_, hold fun hlooks => (hsees hlooks).append, ?_⟩
    simpa using hold' hsees
  | case4 r s ihr ihs =>
    obtain ⟨hr, hs⟩ := Bool.and_eq_true_iff.mp hr
    rcases mem_ends_alt.1 hq with hq | hq
    · obtain ⟨w, v', hv, hq, hold⟩ := ihr hr huv hq
      exact ⟨w, v', hv, hq, fun hsees => mem_ends_alt.2 (.inl (hold hsees))⟩
    · obtain ⟨w, v', hv, hq, hold⟩ := ihs hs huv hq
      exact ⟨w, v', hv, hq, fun hsees => mem_ends_alt.2 (.inr (hold hsees))⟩
  | case5 r ih => exact agrees_star (ih hr) huv hq
  | case6 =>
    obtain ⟨rfl, hb⟩ := mem_ends_boundary.1 hq
    exact .here fun hsees => mem_ends_boundary.2 ⟨rfl, h.boundary hr huv (hsees hr) hb⟩
  | case7 r ih =>
    obtain ⟨hlooks, hr⟩ := Bool.and_eq_true_iff.mp hr
    obtain ⟨rfl, hsome⟩ := mem_look_not.1 hq
    refine .here fun _ => mem_look_not.2 ⟨rfl, ?_⟩
    -- what is looked for ends at a word boundary, so in front of the same character
    obtain ⟨y, hy⟩ := List.exists_mem_of_ne_nil _ (by simpa using hsome)
    obtain ⟨x, hx, hb⟩ := mem_ends_seq.1 hy
    obtain ⟨w, v', rfl, rfl, hold⟩ := ih hr huv hx
    have hb := (mem_ends_boundary.1 hb).2
    have huv' : (u ++ w) ++ v' = shared := by rw [← huv]; simp
    have hsees := h.sees hlooks huv' hb
    have hmem := mem_ends_seq.2 ⟨_, hold fun _ => hsees,
      mem_ends_boundary.2 ⟨rfl, h.boundary hlooks huv' hsees hb⟩⟩
    simpa using List.ne_nil_of_mem hmem
  | case8 => simp [ends] at hq
  | case9 isIn =>
    obtain ⟨rfl, hnone⟩ := mem_look.1 hq
    refine .here fun hsees => mem_look.2 ⟨rfl, ?_⟩
    rw [isEmpty_ends_one] at hnone ⊢
    rwa [(hsees hr).head?_eq]
  | case10 => simp_all [stays]

/-- A match takes no character that stops it. -/
theorem not_mem_of_stays {p : Place} {m : List Char} {c : Char} (hr : r.stays stops looks)
    (hq : q ∈ r.ends p) (hm : Spans p m q) (hc : c ∈ stops) : c ∉ m := by
  intro hcm
  obtain ⟨m₁, m₂, rfl⟩ := List.append_of_mem hcm
  have hstretch : Stretch stops looks ⟨p.before, c :: (m₂ ++ q.after)⟩
      ⟨p.before, c :: (m₂ ++ q.after)⟩ m₁ := .refl (by simpa using hc)
  have hplace : p = Place.around ⟨p.before, c :: (m₂ ++ q.after)⟩ [] m₁ :=
    Place.ext rfl (by rw [hm.after]; simp [Place.around])
  rw [hplace] at hq
  -- the match would end before the stop
  obtain ⟨w, v, -, hend, -⟩ := hstretch.agrees hr rfl hq
  have hlen := congrArg (fun x => x.after.length) hend
  simp only [Place.around, List.length_append, List.length_cons] at hlen
  omega

end Regex

end Workbench.Lib
