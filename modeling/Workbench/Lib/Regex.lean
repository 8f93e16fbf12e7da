import Mathlib.Data.List.Forall2
import Mathlib.Data.List.TakeWhile
import Mathlib.Tactic.Lemma

/-!
Regular expressions as JavaScript matches them, by backtracking.

`ends` lists the places where a match can end, in the order in which they are tried: the first
alternative before the second, and a longer repetition before a shorter one. The match that is
made ends at the first of them.
-/

namespace Workbench.Lib

/-- A place in a text. What stands before it is written backwards. -/
@[ext] structure Place where
  before : List Char
  after : List Char
  deriving DecidableEq, Repr

/-- The text between two places. -/
structure Spans (p : Place) (m : List Char) (q : Place) : Prop where
  after : p.after = m ++ q.after
  before : q.before = m.reverse ++ p.before

inductive Regex
  | empty
  /-- one character of a class -/
  | one (isIn : Char → Bool)
  | seq (r s : Regex)
  | alt (r s : Regex)
  | star (r : Regex)
  /-- `^` -/
  | start
  /-- `$` -/
  | finish
  /-- `\b` -/
  | boundary
  /-- `(?=r)` -/
  | ahead (r : Regex)
  /-- `(?!r)` -/
  | notAhead (r : Regex)

namespace Regex

/-- What all characters of a text are is decided by going through the text, not through all
characters there are. -/
scoped instance (priority := high) decidableForallMem {p : Char → Prop} [DecidablePred p]
    (cs : List Char) : Decidable (∀ c ∈ cs, p c) := List.decidableBAll p cs

scoped instance (priority := high) decidableForallMemOption {p : Char → Prop} [DecidablePred p] :
    (c : Option Char) → Decidable (∀ d ∈ c, p d)
  | none => isTrue (by simp)
  | some c => decidable_of_iff (p c) (by simp)

/-- `\w` -/
def isWord (c : Char) : Bool := c.isAlphanum || c = '_'

def atBoundary (p : Place) : Bool := p.before.head?.any isWord != p.after.head?.any isWord

/-- The ends of a repetition, a round at a time. A round that takes nothing is not made. -/
def repeated (round : Place → List Place) : ℕ → Place → List Place
  | 0, p => [p]
  | n + 1, p =>
    ((round p).filter fun q => q.after.length < p.after.length).flatMap (repeated round n) ++ [p]

def ends : Regex → Place → List Place
  | empty, p => [p]
  | one isIn, p =>
    match p.after with
    | c :: cs => if isIn c then [⟨c :: p.before, cs⟩] else []
    | [] => []
  | seq r s, p => (r.ends p).flatMap s.ends
  | alt r s, p => r.ends p ++ s.ends p
  | star r, p => repeated r.ends p.after.length p
  | start, p => if p.before.isEmpty then [p] else []
  | finish, p => if p.after.isEmpty then [p] else []
  | boundary, p => if atBoundary p then [p] else []
  | ahead r, p => if (r.ends p).isEmpty then [] else [p]
  | notAhead r, p => if (r.ends p).isEmpty then [p] else []

/-- Some match begins in the text behind the place, or at it. -/
def matchesFrom (r : Regex) : List Char → List Char → Bool
  | before, [] => !(r.ends ⟨before, []⟩).isEmpty
  | before, c :: cs => !(r.ends ⟨before, c :: cs⟩).isEmpty || r.matchesFrom (c :: before) cs

/-- `r.test(text)` -/
def test (r : Regex) (text : String) : Bool := r.matchesFrom [] text.toList

/-! ### Abbreviations -/

/-- `r?` -/
def opt (r : Regex) : Regex := alt r empty

/-- `r+` -/
def plus (r : Regex) : Regex := seq r (star r)

/-- `r{n,}` -/
def atLeast (r : Regex) : ℕ → Regex
  | 0 => star r
  | n + 1 => seq r (atLeast r n)

def seqs : List Regex → Regex
  | [] => empty
  | r :: rs => seq r (seqs rs)

def alts : List Regex → Regex
  | [] => notAhead empty
  | r :: rs => alt r (alts rs)

/-- One character after the other, each of its class. -/
def each (classes : List (Char → Bool)) : Regex := seqs (classes.map one)

/-- A text in small letters, matched in any case. -/
def caseless (text : String) : Regex := each (text.toList.map fun c d => d.toLower = c)

/-- A text, matched as it is. -/
def exactly (text : String) : Regex := each (text.toList.map fun c d => d = c)

/-- A match of this expression can take no text. -/
def nullable : Regex → Bool
  | one _ => false
  | seq r s => r.nullable && s.nullable
  | alt r s => r.nullable || s.nullable
  | _ => true

/-! ### What a match takes -/

variable {r s : Regex} {p q x : Place} {f : Char → Bool} {m n : List Char}

lemma spans_refl (p : Place) : Spans p [] p := ⟨rfl, rfl⟩

lemma spans_nil : Spans p [] q ↔ q = p := by
  constructor
  · rintro ⟨ha, hb⟩
    exact Place.ext hb ha.symm
  · rintro rfl
    exact spans_refl q

lemma spans_append (h : Spans p m q) (h' : Spans q n x) : Spans p (m ++ n) x where
  after := by rw [h.after, h'.after, List.append_assoc]
  before := by rw [h'.before, h.before, List.reverse_append, List.append_assoc]

lemma length_of_spans (h : Spans p m q) : p.after.length = m.length + q.after.length := by
  rw [h.after, List.length_append]

lemma spans_unique (h : Spans p m q) (h' : Spans p n q) : m = n :=
  List.append_cancel_right (h.after.symm.trans h'.after)

/-- A stretch of a text begins with each of its beginnings. -/
lemma spans_split (h : Spans p (m ++ n) x) : ∃ q, Spans p m q ∧ Spans q n x := by
  refine ⟨⟨m.reverse ++ p.before, n ++ x.after⟩, ⟨?_, rfl⟩, ⟨rfl, ?_⟩⟩
  · rw [h.after, List.append_assoc]
  · rw [h.before, List.reverse_append, List.append_assoc]

lemma ends_one_of_pos {c : Char} {b cs : List Char} (hc : f c) :
    (one f).ends ⟨b, c :: cs⟩ = [⟨c :: b, cs⟩] := if_pos hc

lemma ends_one_of_neg {c : Char} {b cs : List Char} (hc : ¬ f c) :
    (one f).ends ⟨b, c :: cs⟩ = [] := if_neg hc

lemma isEmpty_ends_one : ((one f).ends p).isEmpty = !p.after.head?.any f := by
  obtain ⟨b, _ | ⟨c, cs⟩⟩ := p
  · rfl
  · by_cases hc : f c
    · simp [ends_one_of_pos hc, hc]
    · simp [ends_one_of_neg hc, hc]

lemma ends_star : (star r).ends p = repeated r.ends p.after.length p := rfl

lemma repeated_succ {round : Place → List Place} {k : ℕ} : repeated round (k + 1) p =
    ((round p).filter fun q => q.after.length < p.after.length).flatMap (repeated round k) ++ [p] :=
  rfl

lemma mem_ends_empty : q ∈ empty.ends p ↔ q = p := List.mem_singleton

lemma mem_ends_one : q ∈ (one f).ends p ↔ ∃ c, f c ∧ Spans p [c] q := by
  obtain ⟨b, _ | ⟨c, cs⟩⟩ := p
  · refine iff_of_false List.not_mem_nil ?_
    rintro ⟨c, -, h⟩
    simpa using h.after
  constructor
  · intro h
    by_cases hc : f c
    · rw [ends_one_of_pos hc, List.mem_singleton] at h
      exact ⟨c, hc, h ▸ ⟨rfl, rfl⟩⟩
    · rw [ends_one_of_neg hc] at h
      cases h
  · rintro ⟨d, hd, ha, hb⟩
    obtain ⟨rfl, hcs⟩ : c = d ∧ cs = q.after := by simpa using ha
    rw [ends_one_of_pos hd, List.mem_singleton]
    exact Place.ext hb hcs.symm

lemma mem_ends_seq : q ∈ (seq r s).ends p ↔ ∃ x ∈ r.ends p, q ∈ s.ends x := List.mem_flatMap

lemma mem_ends_seqs_append (rs : List Regex) {ss : List Regex} :
    q ∈ (seqs (rs ++ ss)).ends p ↔ ∃ x ∈ (seqs rs).ends p, q ∈ (seqs ss).ends x := by
  induction rs generalizing p with
  | nil => simp [seqs, mem_ends_empty]
  | cons r rs ih =>
    simp only [List.cons_append, seqs, mem_ends_seq, ih]
    constructor
    · rintro ⟨x, hx, y, hy, hq⟩
      exact ⟨y, ⟨x, hx, hy⟩, hq⟩
    · rintro ⟨y, ⟨x, hx, hy⟩, hq⟩
      exact ⟨x, hx, y, hy, hq⟩

lemma mem_ends_alt : q ∈ (alt r s).ends p ↔ q ∈ r.ends p ∨ q ∈ s.ends p := List.mem_append

lemma mem_ends_alts {rs : List Regex} : q ∈ (alts rs).ends p ↔ ∃ r ∈ rs, q ∈ r.ends p := by
  induction rs with
  | nil => simp [alts, ends]
  | cons r rs ih => simp only [alts, mem_ends_alt, ih, List.mem_cons, exists_eq_or_imp]

/-- An expression that only looks. -/
lemma mem_look {b : Bool} : q ∈ (if b then [p] else []) ↔ q = p ∧ b := by
  cases b <;> simp

lemma mem_look_not {b : Bool} : q ∈ (if b then [] else [p]) ↔ q = p ∧ b = false := by
  cases b <;> simp

lemma mem_ends_boundary : q ∈ boundary.ends p ↔ q = p ∧ atBoundary p := mem_look

/-- Rounds that go forward in the text go forward in it when they are repeated. -/
lemma spans_of_mem_repeated {round : Place → List Place}
    (hround : ∀ p, ∀ q ∈ round p, ∃ m, Spans p m q) {k : ℕ} (h : q ∈ repeated round k p) :
    ∃ m, Spans p m q := by
  induction k generalizing p with
  | zero =>
    obtain rfl := List.mem_singleton.mp h
    exact ⟨[], spans_refl q⟩
  | succ k ih =>
    rw [repeated_succ] at h
    simp only [List.mem_append, List.mem_flatMap, List.mem_filter, List.mem_singleton] at h
    rcases h with ⟨x, ⟨hx, -⟩, hq⟩ | rfl
    · obtain ⟨m, hm⟩ := hround p x hx
      obtain ⟨n, hn⟩ := ih hq
      exact ⟨m ++ n, spans_append hm hn⟩
    · exact ⟨[], spans_refl q⟩

/-- **A match takes the text between the place where it starts and the place where it ends.** -/
theorem spans_of_mem_ends (h : q ∈ r.ends p) : ∃ m, Spans p m q := by
  have stays : ∀ {p q : Place}, q = p → ∃ m, Spans p m q := fun h => ⟨[], spans_nil.2 h⟩
  induction r generalizing p q with
  | empty => exact stays (mem_ends_empty.1 h)
  | one f =>
    obtain ⟨c, -, hs⟩ := mem_ends_one.1 h
    exact ⟨[c], hs⟩
  | seq r s ihr ihs =>
    obtain ⟨x, hx, hq⟩ := mem_ends_seq.1 h
    obtain ⟨m, hm⟩ := ihr hx
    obtain ⟨n, hn⟩ := ihs hq
    exact ⟨m ++ n, spans_append hm hn⟩
  | alt r s ihr ihs =>
    rcases mem_ends_alt.1 h with h | h
    · exact ihr h
    · exact ihs h
  | star r ih => exact spans_of_mem_repeated (fun p q hq => ih hq) h
  | boundary => exact stays (mem_ends_boundary.1 h).1
  | start | finish | notAhead => exact stays (mem_look.1 h).1
  | ahead => exact stays (mem_look_not.1 h).1

/-- More rounds than there are characters left are not made. -/
lemma repeated_fuel {round : Place → List Place} {k l : ℕ} (hk : p.after.length ≤ k)
    (hl : p.after.length ≤ l) : repeated round k p = repeated round l p := by
  have hnone (hp : p.after.length = 0) :
      ((round p).filter fun q => q.after.length < p.after.length) = [] := by simp [hp]
  induction k generalizing l p with
  | zero =>
    cases l with
    | zero => rfl
    | succ l => rw [repeated_succ, hnone (by omega)]; rfl
  | succ k ih =>
    cases l with
    | zero => rw [repeated_succ, hnone (by omega)]; rfl
    | succ l =>
      rw [repeated_succ, repeated_succ]
      congr 1
      refine List.flatMap_congr fun x hx => ?_
      have hlt : x.after.length < p.after.length := by simpa using (List.mem_filter.mp hx).2
      exact ih (by omega) (by omega) fun h => by simp [h]

/-- A repetition ends where it begins, or behind a round that takes something and more rounds. -/
lemma mem_ends_star : q ∈ (star r).ends p ↔
    (∃ x ∈ r.ends p, x.after.length < p.after.length ∧ q ∈ (star r).ends x) ∨ q = p := by
  have hunfold : (star r).ends p = ((r.ends p).filter fun x =>
      x.after.length < p.after.length).flatMap (star r).ends ++ [p] := by
    have hmore : repeated r.ends p.after.length p = repeated r.ends (p.after.length + 1) p :=
      repeated_fuel le_rfl (Nat.le_succ _)
    rw [ends_star, hmore, repeated_succ]
    congr 1
    refine List.flatMap_congr fun x hx => ?_
    have hlt : x.after.length < p.after.length := by simpa using (List.mem_filter.mp hx).2
    exact repeated_fuel hlt.le le_rfl
  rw [hunfold]
  simp only [List.mem_append, List.mem_flatMap, List.mem_filter, List.mem_singleton,
    decide_eq_true_eq, and_assoc]

/-- An expression that is not nullable takes some text. -/
lemma ne_nil_of_spans (hr : r.nullable = false) (h : q ∈ r.ends p) (hm : Spans p m q) :
    m ≠ [] := by
  induction r generalizing p q m with
  | one f =>
    obtain ⟨c, -, hs⟩ := mem_ends_one.1 h
    have h1 := length_of_spans hs
    have h2 := length_of_spans hm
    rintro rfl
    simp at h1 h2
    omega
  | seq r s ihr ihs =>
    obtain ⟨x, hx, hq⟩ := mem_ends_seq.1 h
    obtain ⟨m₁, hm₁⟩ := spans_of_mem_ends hx
    obtain ⟨m₂, hm₂⟩ := spans_of_mem_ends hq
    have hsome : m₁ ≠ [] ∨ m₂ ≠ [] := by
      rcases Bool.and_eq_false_iff.mp hr with hr | hr
      · exact .inl (ihr hr hx hm₁)
      · exact .inr (ihs hr hq hm₂)
    have h1 := length_of_spans (spans_append hm₁ hm₂)
    have h2 := length_of_spans hm
    rintro rfl
    simp only [← List.length_pos_iff] at hsome
    simp at h1 h2
    omega
  | alt r s ihr ihs =>
    obtain ⟨hr, hs⟩ := Bool.or_eq_false_iff.mp hr
    rcases mem_ends_alt.1 h with h | h
    · exact ihr hr h hm
    · exact ihs hs h hm
  | empty | star | start | finish | boundary | ahead | notAhead => simp [nullable] at hr

/-! ### Repeated classes -/

/-- The place behind all characters of a class that stand here. -/
def past (f : Char → Bool) (p : Place) : Place :=
  ⟨(p.after.takeWhile f).reverse ++ p.before, p.after.dropWhile f⟩

lemma spans_past (f : Char → Bool) (p : Place) : Spans p (p.after.takeWhile f) (past f p) :=
  ⟨(List.takeWhile_append_dropWhile).symm, rfl⟩

/-- **A repeated class** takes all its characters first; the other ends all stand before one. -/
theorem ends_star_one (f : Char → Bool) (p : Place) : ∃ rest,
    (star (one f)).ends p = past f p :: rest ∧ ∀ q ∈ rest, ∃ c cs, q.after = c :: cs ∧ f c := by
  obtain ⟨b, cs⟩ := p
  induction cs generalizing b with
  | nil => exact ⟨[], rfl, by simp⟩
  | cons c cs ih =>
    by_cases hc : f c
    · obtain ⟨rest, hrest, hall⟩ := ih (c :: b)
      refine ⟨rest ++ [⟨b, c :: cs⟩], ?_, ?_⟩
      · have hstar : (star (one f)).ends ⟨b, c :: cs⟩ =
            (star (one f)).ends ⟨c :: b, cs⟩ ++ [⟨b, c :: cs⟩] := by
          rw [ends_star, ends_star, List.length_cons, repeated_succ, ends_one_of_pos hc]
          simp
        rw [hstar, hrest, List.cons_append]
        simp [past, hc]
      · intro q hq
        rcases List.mem_append.mp hq with hq | hq
        · exact hall q hq
        · obtain rfl := List.mem_singleton.mp hq
          exact ⟨c, cs, rfl, hc⟩
    · refine ⟨[], ?_, by simp⟩
      rw [ends_star, List.length_cons, repeated_succ, ends_one_of_neg hc]
      simp [past, hc]

lemma mem_ends_star_one (h : q ∈ (star (one f)).ends p) : ∃ m, Spans p m q ∧ ∀ c ∈ m, f c := by
  have hrep : ∀ k p, q ∈ repeated (one f).ends k p → ∃ m, Spans p m q ∧ ∀ c ∈ m, f c := by
    intro k
    induction k with
    | zero =>
      intro p h
      obtain rfl := List.mem_singleton.mp h
      exact ⟨[], spans_refl q, by simp⟩
    | succ k ih =>
      intro p h
      rw [repeated_succ] at h
      simp only [List.mem_append, List.mem_flatMap, List.mem_filter, List.mem_singleton] at h
      rcases h with ⟨x, ⟨hx, -⟩, hq⟩ | rfl
      · obtain ⟨c, hc, hs⟩ := mem_ends_one.1 hx
        obtain ⟨m, hm, hall⟩ := ih x hq
        exact ⟨[c] ++ m, spans_append hs hm, by simpa [hc] using hall⟩
      · exact ⟨[], spans_refl q, by simp⟩
  exact hrep _ p h

/-- A repeated class can end behind every run of its characters. -/
lemma mem_ends_star_one_of_spans (h : Spans p m q) (hm : ∀ c ∈ m, f c) :
    q ∈ (star (one f)).ends p := by
  have hrep : ∀ (m : List Char) (k : ℕ) (p : Place), m.length ≤ k → Spans p m q →
      (∀ c ∈ m, f c) → q ∈ repeated (one f).ends k p := by
    intro m
    induction m with
    | nil =>
      intro k p _ h _
      obtain rfl := spans_nil.1 h
      cases k <;> simp [repeated]
    | cons c m ih =>
      intro k p hk h hm
      obtain ⟨k, rfl⟩ : ∃ j, k = j + 1 := ⟨k - 1, by simp only [List.length_cons] at hk; omega⟩
      obtain ⟨x, hx, hx'⟩ := spans_split (m := [c]) h
      have hround : x ∈ (one f).ends p := mem_ends_one.2 ⟨c, hm c List.mem_cons_self, hx⟩
      have hlt : x.after.length < p.after.length := by
        have := length_of_spans hx
        simp only [List.length_singleton] at this
        omega
      rw [repeated_succ, List.mem_append, List.mem_flatMap]
      refine .inl ⟨x, List.mem_filter.mpr ⟨hround, decide_eq_true hlt⟩, ?_⟩
      refine ih k x ?_ hx' fun d hd => hm d (List.mem_cons_of_mem c hd)
      simpa using hk
  have hlen := length_of_spans h
  exact hrep m _ p (by omega) h hm

lemma mem_ends_atLeast_one {k : ℕ} : q ∈ ((one f).atLeast k).ends p ↔
    ∃ m, k ≤ m.length ∧ (∀ c ∈ m, f c) ∧ Spans p m q := by
  induction k generalizing p with
  | zero =>
    constructor
    · intro h
      obtain ⟨m, hspans, hm⟩ := mem_ends_star_one h
      exact ⟨m, Nat.zero_le _, hm, hspans⟩
    · rintro ⟨m, -, hm, hspans⟩
      exact mem_ends_star_one_of_spans hspans hm
  | succ k ih =>
    constructor
    · intro h
      obtain ⟨x, hx, hq⟩ := mem_ends_seq.1 h
      obtain ⟨c, hc, hfirst⟩ := mem_ends_one.1 hx
      obtain ⟨m, hlength, hm, hspans⟩ := ih.mp hq
      exact ⟨[c] ++ m, by simpa using hlength, by simpa [hc] using hm, spans_append hfirst hspans⟩
    · rintro ⟨_ | ⟨c, m⟩, hlength, hm, hspans⟩
      · simp at hlength
      · obtain ⟨x, hx, hx'⟩ := spans_split (m := [c]) hspans
        obtain ⟨hc, hrest⟩ := List.forall_mem_cons.mp hm
        exact mem_ends_seq.2 ⟨x, mem_ends_one.2 ⟨c, hc, hx⟩,
          ih.mpr ⟨m, by simpa using hlength, hrest, hx'⟩⟩

/-! ### Looking for a match -/

lemma matchesFrom_iff {before cs : List Char} : r.matchesFrom before cs ↔
    ∃ front p, cs = front ++ p.after ∧ p.before = front.reverse ++ before ∧ ∃ q, q ∈ r.ends p := by
  have hsome (x : Place) : (!(r.ends x).isEmpty) = true ↔ ∃ q, q ∈ r.ends x := by
    rw [Bool.not_eq_true', ← Bool.not_eq_true, List.isEmpty_iff, ← ne_eq,
      List.ne_nil_iff_exists_cons]
    constructor
    · rintro ⟨q, qs, hends⟩
      exact ⟨q, by simp [hends]⟩
    · rintro ⟨q, hq⟩
      exact List.exists_cons_of_ne_nil (List.ne_nil_of_mem hq)
  induction cs generalizing before with
  | nil =>
    rw [matchesFrom, hsome]
    constructor
    · exact fun h => ⟨[], ⟨before, []⟩, rfl, rfl, h⟩
    · rintro ⟨front, p, hcs, hbefore, hends⟩
      obtain ⟨rfl, hafter⟩ := List.append_eq_nil_iff.mp hcs.symm
      obtain rfl : p = ⟨before, []⟩ := Place.ext hbefore hafter
      exact hends
  | cons c cs ih =>
    rw [matchesFrom, Bool.or_eq_true, hsome]
    constructor
    · rintro (h | h)
      · exact ⟨[], ⟨before, c :: cs⟩, rfl, rfl, h⟩
      · obtain ⟨front, p, rfl, hbefore, hends⟩ := ih.mp h
        exact ⟨c :: front, p, rfl, by simp [hbefore], hends⟩
    · rintro ⟨_ | ⟨d, front⟩, p, hcs, hbefore, hends⟩
      · obtain rfl : p = ⟨before, c :: cs⟩ := Place.ext hbefore hcs.symm
        exact .inl hends
      · obtain ⟨rfl, hrest⟩ := List.cons.inj hcs
        exact .inr (ih.mpr ⟨front, p, hrest, by simp [hbefore], hends⟩)

lemma test_iff {text : String} : r.test text ↔
    ∃ p, text.toList = p.before.reverse ++ p.after ∧ ∃ q, q ∈ r.ends p := by
  rw [test, matchesFrom_iff]
  constructor
  · rintro ⟨front, p, htext, hbefore, hends⟩
    exact ⟨p, by rw [hbefore, htext]; simp, hends⟩
  · rintro ⟨p, htext, hends⟩
    exact ⟨p.before.reverse, p, htext, by simp, hends⟩

/-! ### Texts -/

lemma mem_ends_each {classes : List (Char → Bool)} :
    q ∈ (each classes).ends p ↔ ∃ m, List.Forall₂ (fun g c => g c) classes m ∧ Spans p m q := by
  induction classes generalizing p with
  | nil =>
    constructor
    · intro h
      exact ⟨[], .nil, spans_nil.2 (mem_ends_empty.1 h)⟩
    · rintro ⟨m, hm, hs⟩
      cases hm
      exact mem_ends_empty.2 (spans_nil.1 hs)
  | cons g gs ih =>
    constructor
    · intro h
      obtain ⟨x, hx, hq⟩ := mem_ends_seq.1 h
      obtain ⟨c, hc, hs⟩ := mem_ends_one.1 hx
      obtain ⟨m, hm, hs'⟩ := ih.mp hq
      exact ⟨[c] ++ m, .cons hc hm, spans_append hs hs'⟩
    · rintro ⟨m, hm, hs⟩
      cases hm with
      | @cons _ c _ m hc hm =>
        obtain ⟨x, hx, hx'⟩ := spans_split (m := [c]) hs
        exact mem_ends_seq.2 ⟨x, mem_ends_one.2 ⟨c, hc, hx⟩, ih.mpr ⟨m, hm, hx'⟩⟩

lemma mem_ends_caseless {text : String} : q ∈ (caseless text).ends p ↔
    ∃ m, m.map Char.toLower = text.toList ∧ Spans p m q := by
  have hiff : ∀ (cs m : List Char), List.Forall₂ (fun g c => g c)
      (cs.map fun c d => decide (d.toLower = c)) m ↔ m.map Char.toLower = cs := by
    intro cs
    induction cs with
    | nil => intro m; cases m <;> simp
    | cons c cs ih => intro m; cases m <;> simp [ih]
  simp only [caseless, mem_ends_each, hiff]

/-- A text can be matched in one way. -/
lemma ends_caseless {text : String} (hm : m.map Char.toLower = text.toList) (h : Spans p m q) :
    (caseless text).ends p = [q] := by
  have hone : ∀ (gs : List (Char → Bool)) p, ((each gs).ends p).length ≤ 1 := by
    intro gs
    induction gs with
    | nil => intro p; exact le_rfl
    | cons g gs ih =>
      have hcons (p : Place) : (each (g :: gs)).ends p =
          ((one g).ends p).flatMap (each gs).ends := rfl
      rintro ⟨b, _ | ⟨c, cs⟩⟩
      · exact Nat.zero_le _
      · rw [hcons]
        by_cases hc : g c
        · rw [ends_one_of_pos hc]
          simpa using ih ⟨c :: b, cs⟩
        · rw [ends_one_of_neg hc]
          exact Nat.zero_le _
  have hmem : q ∈ (caseless text).ends p := mem_ends_caseless.2 ⟨m, hm, h⟩
  have hlen : ((caseless text).ends p).length ≤ 1 := hone _ p
  rcases hl : (caseless text).ends p with _ | ⟨x, _ | ⟨y, l⟩⟩
  · simp [hl] at hmem
  · rw [hl, List.mem_singleton] at hmem
    rw [hmem]
  · simp [hl] at hlen

/-! ### Letters -/

section Letters

variable {c : Char}

lemma isUpper_iff : c.isUpper ↔ 65 ≤ c.toNat ∧ c.toNat ≤ 90 := decide_eq_true_iff

lemma isLower_iff : c.isLower ↔ 97 ≤ c.toNat ∧ c.toNat ≤ 122 := by
  refine Bool.and_eq_true_iff.trans (and_congr ?_ ?_)
  · exact decide_eq_true_iff
  · exact decide_eq_true_iff

lemma isAlpha_iff : c.isAlpha ↔ c.isUpper ∨ c.isLower := Bool.or_eq_true_iff

lemma isDigit_iff : c.isDigit ↔ 48 ≤ c.toNat ∧ c.toNat ≤ 57 := by
  refine Bool.and_eq_true_iff.trans (and_congr ?_ ?_)
  · exact decide_eq_true_iff
  · exact decide_eq_true_iff

lemma isWord_iff : isWord c ↔ c.isAlpha ∨ c.isDigit ∨ c = '_' := by
  refine Bool.or_eq_true_iff.trans ?_
  rw [decide_eq_true_iff, ← or_assoc]
  exact or_congr_left Bool.or_eq_true_iff

lemma toLower_of_not_isUpper (hc : c.isUpper = false) : c.toLower = c := by
  refine dif_neg fun h => ?_
  have hup : c.isUpper := decide_eq_true h
  rw [hc] at hup
  cases hup

lemma isLower_toLower (hc : c.isUpper) : c.toLower.isLower := by
  have hbounds := isUpper_iff.1 hc
  have hlower : c.toLower.toNat = (c.val + ('a'.val - 'A'.val)).toNat :=
    congrArg Char.toNat (dif_pos (of_decide_eq_true hc))
  have hgap : ('a'.val - 'A'.val).toNat = 32 := rfl
  have hcode : c.val.toNat = c.toNat := rfl
  rw [isLower_iff, hlower, UInt32.toNat_add, hgap, hcode]
  omega

/-- A character that is no letter is no letter's small form. -/
lemma toLower_eq_iff {x : Char} (hx : x.isAlpha = false) : c.toLower = x ↔ c = x := by
  have hother : ¬ x.isAlpha := by simp [hx]
  by_cases hc : c.isUpper
  · constructor
    · rintro rfl
      exact absurd (isAlpha_iff.2 (.inr (isLower_toLower hc))) hother
    · rintro rfl
      exact absurd (isAlpha_iff.2 (.inl hc)) hother
  · rw [toLower_of_not_isUpper (by simpa using hc)]

end Letters

/-! ### Lists of words -/

/-- The expression matches these words, written in small letters, in any case. -/
def Spells (r : Regex) (words : List (List Char)) : Prop :=
  ∀ p q, q ∈ r.ends p ↔ ∃ m, m.map Char.toLower ∈ words ∧ Spans p m q

variable {words words' : List (List Char)}

lemma spells_empty : Spells empty [[]] := by
  intro p q
  rw [mem_ends_empty, ← spans_nil]
  constructor
  · exact fun h => ⟨[], by simp, h⟩
  · rintro ⟨m, hm, h⟩
    obtain rfl : m = [] := by simpa using hm
    exact h

lemma spells_caseless (text : String) : Spells (caseless text) [text.toList] := by
  intro p q
  simp [mem_ends_caseless]

lemma spells_seq (h : Spells r words) (h' : Spells s words') :
    Spells (seq r s) (words.flatMap fun w => words'.map (w ++ ·)) := by
  intro p q
  rw [mem_ends_seq]
  constructor
  · rintro ⟨x, hx, hq⟩
    obtain ⟨m, hm, hs⟩ := (h p x).mp hx
    obtain ⟨n, hn, hs'⟩ := (h' x q).mp hq
    refine ⟨m ++ n, List.mem_flatMap.mpr ⟨_, hm, List.mem_map.mpr ⟨_, hn, ?_⟩⟩, spans_append hs hs'⟩
    rw [List.map_append]
  · rintro ⟨m, hm, hs⟩
    obtain ⟨w, hw, hm⟩ := List.mem_flatMap.mp hm
    obtain ⟨w', hw', heq⟩ := List.mem_map.mp hm
    obtain ⟨m₁, m₂, rfl, rfl, rfl⟩ := List.map_eq_append_iff.mp heq.symm
    obtain ⟨x, hx, hx'⟩ := spans_split hs
    exact ⟨x, (h p x).mpr ⟨m₁, hw, hx⟩, (h' x q).mpr ⟨m₂, hw', hx'⟩⟩

lemma spells_alt (h : Spells r words) (h' : Spells s words') :
    Spells (alt r s) (words ++ words') := by
  intro p q
  rw [mem_ends_alt, h p q, h' p q]
  constructor
  · rintro (⟨m, hm, hs⟩ | ⟨m, hm, hs⟩)
    · exact ⟨m, List.mem_append_left _ hm, hs⟩
    · exact ⟨m, List.mem_append_right _ hm, hs⟩
  · rintro ⟨m, hm, hs⟩
    rcases List.mem_append.mp hm with hm | hm
    · exact .inl ⟨m, hm, hs⟩
    · exact .inr ⟨m, hm, hs⟩

lemma spells_never : Spells (alts []) [] := by
  intro p q
  rw [show (alts []).ends p = [] from rfl]
  simp

/-- A character that has no other case. -/
lemma spells_one (hf : ∀ c, f c ↔ [c.toLower] ∈ words) (hwords : ∀ w ∈ words, w.length = 1) :
    Spells (one f) words := by
  intro p q
  rw [mem_ends_one]
  constructor
  · rintro ⟨c, hc, hs⟩
    exact ⟨[c], (hf c).mp hc, hs⟩
  · rintro ⟨m, hm, hs⟩
    obtain ⟨c, rfl⟩ := List.length_eq_one_iff.mp (by simpa using hwords _ hm)
    exact ⟨c, (hf c).mpr hm, hs⟩

lemma Spells.of_iff (h : Spells r words) (hiff : ∀ w, w ∈ words ↔ w ∈ words') :
    Spells r words' := by
  intro p q
  simp only [h p q, hiff]

/-! ### Runs of a class -/

/-- A run of a class at the front of a text is as long as it can be in one way. -/
lemma run_append_inj {m m' u u' : List Char} (h : m ++ u = m' ++ u') (hm : ∀ c ∈ m, f c)
    (hm' : ∀ c ∈ m', f c) (hu : ∀ c ∈ u.head?, f c = false) (hu' : ∀ c ∈ u'.head?, f c = false) :
    m = m' ∧ u = u' := by
  have key : ∀ {w : List Char}, w ≠ [] → (∀ c ∈ w, f c) → ∀ v, (∀ c ∈ (w ++ v).head?, f c = false) →
      False := by
    intro w hw hall v hv
    obtain ⟨c, w, rfl⟩ := List.exists_cons_of_ne_nil hw
    have h1 := hall c (by simp)
    have h2 := hv c (by simp)
    simp [h1] at h2
  rcases List.append_eq_append_iff.mp h with ⟨w, rfl, rfl⟩ | ⟨w, rfl, rfl⟩
  · by_cases hw : w = []
    · simp [hw]
    · exact (key hw (fun c hc => hm' c (by simp [hc])) u' hu).elim
  · by_cases hw : w = []
    · simp [hw]
    · exact (key hw (fun c hc => hm c (by simp [hc])) u hu').elim

/-- So is a run at the end of a text. -/
lemma append_run_inj {m m' u u' : List Char} (h : u ++ m = u' ++ m') (hm : ∀ c ∈ m, f c)
    (hm' : ∀ c ∈ m', f c) (hu : ∀ c ∈ u.getLast?, f c = false)
    (hu' : ∀ c ∈ u'.getLast?, f c = false) : u = u' ∧ m = m' := by
  have hrev := congrArg List.reverse h
  rw [List.reverse_append, List.reverse_append] at hrev
  obtain ⟨h1, h2⟩ := run_append_inj hrev (fun c hc => hm c (List.mem_reverse.mp hc))
    (fun c hc => hm' c (List.mem_reverse.mp hc)) (by simpa using hu) (by simpa using hu')
  exact ⟨List.reverse_injective h2, List.reverse_injective h1⟩

/-! ### The match that is made -/

/-- The match from `p` ends at `q`. -/
def First (r : Regex) (p q : Place) : Prop := (r.ends p).head? = some q

lemma first_of_all (hne : r.ends p ≠ []) (h : ∀ q' ∈ r.ends p, q' = q) : First r p q := by
  obtain ⟨x, l, hl⟩ := List.exists_cons_of_ne_nil hne
  rw [First, hl, List.head?_cons, h x (by simp [hl])]

lemma first_empty (p : Place) : First empty p p := rfl

lemma first_boundary (h : atBoundary p) : First boundary p p := by simp [First, ends, h]

lemma first_one {c : Char} (hc : f c) (h : Spans p [c] q) : First (one f) p q := by
  refine first_of_all (List.ne_nil_of_mem (mem_ends_one.2 ⟨c, hc, h⟩)) fun q' hq' => ?_
  obtain ⟨d, -, hd⟩ := mem_ends_one.1 hq'
  obtain ⟨-, hafter⟩ := List.append_inj (h.after.symm.trans hd.after) rfl
  obtain ⟨rfl⟩ : c = d := by
    have := h.after.symm.trans hd.after
    exact (List.cons.inj this).1
  exact Place.ext (hd.before.trans h.before.symm) hafter.symm

lemma first_seq (hr : First r p x) (hs : First s x q) : First (seq r s) p q := by
  obtain ⟨l, hl⟩ := List.head?_eq_some_iff.mp hr
  obtain ⟨l', hl'⟩ := List.head?_eq_some_iff.mp hs
  change ((r.ends p).flatMap s.ends).head? = some q
  rw [hl, List.flatMap_cons, hl', List.cons_append, List.head?_cons]

lemma first_star_one (f : Char → Bool) (p : Place) : First (star (one f)) p (past f p) := by
  obtain ⟨rest, hrest, -⟩ := ends_star_one f p
  rw [First, hrest, List.head?_cons]

/-- The place behind a run of a class that is followed by something else. -/
lemma past_of_spans (h : Spans p m q) (hm : ∀ c ∈ m, f c)
    (hq : ∀ c ∈ q.after.head?, f c = false) : past f p = q := by
  have htake : p.after.takeWhile f = m := by
    rw [h.after]
    cases hcs : q.after with
    | nil => rw [List.append_nil, List.takeWhile_eq_self_iff.mpr hm]
    | cons c cs =>
      rw [List.takeWhile_append_of_pos hm,
        List.takeWhile_cons_of_neg (by simp [hq c (by simp [hcs])]), List.append_nil]
  have hdrop : p.after.dropWhile f = q.after := by
    have := List.takeWhile_append_dropWhile (p := f) (l := p.after)
    rw [htake] at this
    exact List.append_cancel_left (this.trans h.after)
  exact Place.ext (by rw [past, htake, h.before]) hdrop

lemma first_star_one_of_spans (h : Spans p m q) (hm : ∀ c ∈ m, f c)
    (hq : ∀ c ∈ q.after.head?, f c = false) : First (star (one f)) p q :=
  past_of_spans h hm hq ▸ first_star_one f p

lemma first_plus_one_of_spans (h : Spans p m q) (hne : m ≠ []) (hm : ∀ c ∈ m, f c)
    (hq : ∀ c ∈ q.after.head?, f c = false) : First (plus (one f)) p q := by
  obtain ⟨c, l, rfl⟩ := List.exists_cons_of_ne_nil hne
  obtain ⟨x, hx, hx'⟩ := spans_split (m := [c]) h
  exact first_seq (first_one (hm c (by simp)) hx)
    (first_star_one_of_spans hx' (fun d hd => hm d (by simp [hd])) hq)

lemma mem_ends_plus_one (h : q ∈ (plus (one f)).ends p) :
    ∃ m, Spans p m q ∧ m ≠ [] ∧ ∀ c ∈ m, f c := by
  obtain ⟨x, hx, hq⟩ := mem_ends_seq.1 h
  obtain ⟨c, hc, hs⟩ := mem_ends_one.1 hx
  obtain ⟨m, hm, hall⟩ := mem_ends_star_one hq
  exact ⟨[c] ++ m, spans_append hs hm, by simp, by simpa [hc] using hall⟩

/-- A repeated class that is matched takes all its characters, and one of them. -/
lemma first_plus_one (h : First (plus (one f)) p q) :
    p.after.head?.any f ∧ q.after.head?.any f = false := by
  obtain ⟨b, _ | ⟨c, cs⟩⟩ := p
  · cases h
  by_cases hc : f c
  · have hends : (plus (one f)).ends ⟨b, c :: cs⟩ = (star (one f)).ends ⟨c :: b, cs⟩ := by
      change ((one f).ends ⟨b, c :: cs⟩).flatMap (star (one f)).ends = _
      rw [ends_one_of_pos hc, List.flatMap_singleton]
    rw [First, hends, first_star_one f ⟨c :: b, cs⟩, Option.some.injEq] at h
    refine ⟨hc, ?_⟩
    have hnot := List.head?_dropWhile_not f cs
    rw [← h, past]
    cases hd : (cs.dropWhile f).head? with
    | none => rfl
    | some d =>
      rw [hd] at hnot
      simpa using hnot
  · have hends : (plus (one f)).ends ⟨b, c :: cs⟩ = [] := by
      change ((one f).ends ⟨b, c :: cs⟩).flatMap (star (one f)).ends = _
      rw [ends_one_of_neg hc, List.flatMap_nil]
    rw [First, hends] at h
    cases h

lemma ends_plus_one_eq_nil : (plus (one f)).ends p = [] ↔ p.after.head?.any f = false := by
  constructor
  · intro h
    by_contra hf
    obtain ⟨c, hc, hfc⟩ := (Option.any_eq_true _ _).mp (by simpa using hf)
    obtain ⟨cs, hcs⟩ := List.head?_eq_some_iff.mp hc
    have hmem : (⟨c :: p.before, cs⟩ : Place) ∈ (plus (one f)).ends p :=
      mem_ends_seq.2 ⟨⟨c :: p.before, cs⟩, mem_ends_one.2 ⟨c, hfc, by simpa using hcs, rfl⟩,
        mem_ends_star.2 (.inr rfl)⟩
    simp [h] at hmem
  · intro hf
    refine List.eq_nil_iff_forall_not_mem.mpr fun q hq => ?_
    obtain ⟨x, hx, -⟩ := mem_ends_seq.1 hq
    obtain ⟨c, hc, hs⟩ := mem_ends_one.1 hx
    simp [hs.after, hc] at hf

/-! ### Word characters at the ends of a match -/

/-- A match begins with a word character. -/
def Starts (r : Regex) : Prop := ∀ p, ∀ q ∈ r.ends p, p.after.head?.any isWord

lemma starts_one (hf : ∀ c, f c → isWord c) : Starts (one f) := by
  intro p q hq
  obtain ⟨c, hc, hs⟩ := mem_ends_one.1 hq
  simp [hs.after, hf c hc]

lemma starts_seq (hr : Starts r) (s : Regex) : Starts (seq r s) := by
  intro p q hq
  obtain ⟨x, hx, -⟩ := mem_ends_seq.1 hq
  exact hr p x hx

lemma starts_boundary (hr : Starts r) : Starts (seq boundary r) := by
  intro p q hq
  obtain ⟨x, hx, hq'⟩ := mem_ends_seq.1 hq
  obtain rfl := (mem_ends_boundary.1 hx).1
  exact hr x q hq'

lemma starts_alt (hr : Starts r) (hs : Starts s) : Starts (alt r s) := by
  intro p q hq
  rcases mem_ends_alt.1 hq with hq | hq
  · exact hr p q hq
  · exact hs p q hq

lemma starts_alts {rs : List Regex} (h : ∀ r ∈ rs, Starts r) : Starts (alts rs) := by
  induction rs with
  | nil =>
    intro p q hq
    simp [alts, ends] at hq
  | cons r rs ih =>
    exact starts_alt (h r List.mem_cons_self) (ih fun s hs => h s (List.mem_cons_of_mem r hs))

lemma isAlpha_of_toLower {c : Char} (h : c.toLower.isLower) : c.isAlpha := by
  rw [isAlpha_iff]
  by_cases hupper : c.isUpper
  · exact .inl hupper
  · rw [toLower_of_not_isUpper (by simpa using hupper)] at h
    exact .inr h

lemma isWord_of_toLower {c : Char} (h : c.toLower.isLower) : isWord c :=
  isWord_iff.2 (.inl (isAlpha_of_toLower h))

lemma starts_each {cs : List Char} {test : Char → Char → Bool} {c : Char} (hc : cs.head? = some c)
    (h : ∀ d, test c d → isWord d) : Starts (each (cs.map test)) := by
  obtain ⟨cs, rfl⟩ := List.head?_eq_some_iff.mp hc
  exact starts_seq (starts_one h) _

lemma starts_caseless {text : String} (h : text.toList.head?.any Char.isLower) :
    Starts (caseless text) := by
  obtain ⟨c, hc, hlower⟩ := (Option.any_eq_true _ _).mp h
  refine starts_each hc fun d hd => ?_
  obtain rfl : d.toLower = c := by simpa using hd
  exact isWord_of_toLower hlower

lemma starts_exactly {text : String} (h : text.toList.head?.any isWord) :
    Starts (exactly text) := by
  obtain ⟨c, hc, hword⟩ := (Option.any_eq_true _ _).mp h
  refine starts_each hc fun d hd => ?_
  obtain rfl : d = c := by simpa using hd
  exact hword

/-- The expression ends with `\b`. -/
def closed : Regex → Bool
  | seq boundary empty => true
  | seq _ s => s.closed
  | _ => false

lemma atBoundary_of_closed (hr : r.closed) (h : q ∈ r.ends p) : atBoundary q := by
  induction r using closed.induct generalizing p with
  | case1 =>
    obtain ⟨x, hx, hq⟩ := mem_ends_seq.1 h
    obtain rfl := mem_ends_empty.1 hq
    obtain ⟨rfl, hb⟩ := mem_ends_boundary.1 hx
    exact hb
  | case2 r s hne ih =>
    obtain ⟨x, -, hq⟩ := mem_ends_seq.1 h
    refine ih ?_ hq
    rwa [closed] at hr
    exact hne
  | case3 => simp_all [closed]

end Regex

end Workbench.Lib
