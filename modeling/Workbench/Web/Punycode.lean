import Workbench.Lib.Bootstring
import Workbench.Lib.Double
import Workbench.Lib.Utf16

/-!
Reading a host label in Punycode.

Labels are code units, as JavaScript has them. The reader takes the length of what it has read and
the places in it by units too, where the writer counts characters. The two agree as long as no
character outside the basic plane has been read, so the first of these is still put where it
belongs, and any other is not.
-/

namespace Workbench.Web.Punycode

open Workbench.Lib Workbench.Lib.Bootstring Workbench.Lib.Insertions

/-- How the reader stops without a text. -/
inductive Stop
  | thrown
  /-- a loop that never ends -/
  | endless
  deriving DecidableEq, Repr

/-- A number as the reader adds it up: whole, infinite, or not a number. -/
inductive Whole
  | fin (n : ℕ)
  | infinite
  | nan
  deriving DecidableEq, Repr

/-- The nearest number; far out there is only infinity. -/
def Whole.round (n : ℕ) : Whole :=
  match Double.nearest n 1 with
  | some m => fin m
  | none => infinite

def Whole.add : Whole → Whole → Whole
  | fin a, fin b => round (a + b)
  | nan, _ | _, nan => nan
  | infinite, _ | _, infinite => infinite

/-- `digit * w`, where zero times infinity is not a number. -/
def Whole.mul (digit : ℕ) : Whole → Whole
  | fin b => round (digit * b)
  | infinite => if digit = 0 then nan else infinite
  | nan => nan

def digitFor (code : ℕ) : Except Stop ℕ :=
  if 48 ≤ code ∧ code ≤ 57 then .ok (code - 22)
  else if 65 ≤ code ∧ code ≤ 90 then .ok (code - 65)
  else if 97 ≤ code ∧ code ≤ 122 then .ok (code - 97)
  else .error .thrown

/-- The threshold of a digit. -/
def thresholdOf (bias : ℤ) (k : ℕ) : ℕ :=
  if k ≤ bias then tmin else if bias + tmax ≤ k then tmax else (k - bias).toNat

/-- The loop of `adapt`; the fuel is no less than `d`. -/
def shrink : ℕ → ℤ → ℤ → ℤ × ℤ
  | 0, d, k => (d, k)
  | fuel + 1, d, k =>
    if (((base - tmin) * tmax / 2 : ℕ) : ℤ) < d then
      shrink fuel (d / ((base - tmin : ℕ) : ℤ)) (k + base)
    else (d, k)

/-- `adapt`. The shift looks at 32 bits alone, so a large `delta` may come out negative; the
division by zero then is by a `d` for which any bias up to 10 does the same. -/
def adapt (delta : ℤ) (numPoints : ℕ) (first : Bool) : ℤ :=
  let d := if first then delta / damp else Int.bmod delta (2 ^ 32) / 2
  let d := d + d / numPoints
  let (d, k) := shrink d.toNat d 0
  k + ((base - tmin + 1 : ℕ) * d).fdiv (d + skew)

structure State where
  n : ℕ
  i : ℕ
  bias : ℤ
  output : List ℕ

/-- Reads an integer of variable length on top of `i`; behind the end there is no digit. -/
def readInteger (bias : ℤ) : ℕ → Whole → Whole → List ℕ → Except Stop (Whole × List ℕ)
  | _, _, _, [] => .error .thrown
  | k, i, w, code :: rest =>
    match digitFor code with
    | .error stop => .error stop
    | .ok digit =>
      let i := i.add (w.mul digit)
      let threshold := thresholdOf bias k
      if digit < threshold then .ok (i, rest)
      else readInteger bias (k + base) i (w.mul (base - threshold)) rest

/-- What is done with an integer that was read: the rest of one turn of the loop. From `2 ^ 53` on
the quotients are rounded, but there no code point is left in any case. -/
def insertion (state : State) : Whole → Except Stop State
  -- `adapt` divides infinity again and again, if it does not shift it away
  | .infinite => if state.i = 0 then .error .endless else .error .thrown
  | .nan => .error .thrown
  | .fin total =>
    let outputLength := state.output.length
    let n := state.n + total / (outputLength + 1)
    let i := total % (outputLength + 1)
    if 0x10ffff < n then .error .thrown
    else .ok
      { n
        i := i + 1
        bias := adapt (total - state.i) (outputLength + 1) (state.i = 0)
        output := state.output.take i ++ Utf16.unitsOfPoint n ++ state.output.drop i }

/-- The loop of the reader; each turn reads at least one unit, and the fuel is no less than their
number. -/
def readAll : ℕ → State → List ℕ → Except Stop (List ℕ)
  | 0, state, _ => .ok state.output
  | fuel + 1, state, tail =>
    if tail = [] then .ok state.output
    else
      match readInteger state.bias base (.fin state.i) (.fin 1) tail with
      | .error stop => .error stop
      | .ok (total, rest) =>
        match insertion state total with
        | .error stop => .error stop
        | .ok state => readAll fuel state rest

/-- `payload.lastIndexOf(unit)` -/
def lastIndexOf (unit : ℕ) : List ℕ → Option ℕ
  | [] => none
  | u :: rest =>
    match lastIndexOf unit rest with
    | some place => some (place + 1)
    | none => if u = unit then some 0 else none

def readPayload (payload : List ℕ) : Except Stop (List ℕ) :=
  let (output, tail) :=
    match lastIndexOf delimiter payload with
    | some (place + 1) => (payload.take (place + 1), payload.drop (place + 2))
    | some 0 | none => ([], payload)
  readAll tail.length ⟨initialN, 0, initialBias, output⟩ tail

/-- `"xn--"` -/
def labelStart : List ℕ := [120, 110, 45, 45]

/-- The text of a label; none if the reader never comes to an end. -/
def decodePunycodeLabel (label : List ℕ) : Option (List ℕ) :=
  if labelStart.isPrefixOf label then
    match readPayload (label.drop labelStart.length) with
    | .ok output => some output
    | .error .thrown => some label
    | .error .endless => none
  else some label

/-! ### The writer's numbers -/

variable {bias k fuel q w i n m j total first : ℕ} {state after : State} {tail rest : List ℕ}

lemma thresholdOf_natCast (bias k : ℕ) : thresholdOf bias k = threshold bias k := by
  unfold thresholdOf threshold
  split_ifs <;> omega

lemma shrink_natCast (fuel d k : ℕ) :
    shrink fuel d k = (((scaleDown fuel d k).1 : ℤ), ((scaleDown fuel d k).2 : ℤ)) := by
  induction fuel generalizing d k with
  | zero => rfl
  | succ fuel ih =>
    rw [shrink, scaleDown]
    by_cases h : (base - tmin) * tmax / 2 < d
    · rw [if_pos (Int.ofNat_lt.mpr h), if_pos h]
      exact ih (d / (base - tmin)) (k + base)
    · rw [if_neg (fun hlt => h (Int.ofNat_lt.mp hlt)), if_neg h]

/-- Where 32 bits are enough, the bias is adapted as the writer adapts it. -/
lemma adapt_natCast {delta numPoints : ℕ} {first : Bool} (h : delta < 2 ^ 31) :
    adapt delta numPoints first = Bootstring.adapt delta numPoints first := by
  have hmod : Int.bmod (delta : ℤ) (2 ^ 32) = delta := by
    rw [Int.bmod_eq_of_le] <;> omega
  have hd : (if first then (delta : ℤ) / damp else Int.bmod delta (2 ^ 32) / 2) =
      ((if first then delta / damp else delta / 2 : ℕ) : ℤ) := by
    rw [hmod]
    cases first <;> rfl
  unfold adapt Bootstring.adapt
  simp only [hd]
  generalize (if first then delta / damp else delta / 2) = d
  have hsum : (d : ℤ) + d / numPoints = ((d + d / numPoints : ℕ) : ℤ) := rfl
  have hshrink := shrink_natCast (d + d / numPoints) (d + d / numPoints) 0
  simp only [Int.natCast_zero] at hshrink
  rw [hsum, Int.toNat_natCast, hshrink]
  simp only
  rw [Int.fdiv_eq_ediv_of_nonneg _ (by omega)]
  rfl

/-! ### Reading what was written -/

lemma round_of_lt (h : n < 2 ^ 53) : Whole.round n = .fin n := by
  rw [Whole.round, Double.nearest_of_lt h]

lemma add_fin (h : i + n < 2 ^ 53) : (Whole.fin i).add (.fin n) = .fin (i + n) := round_of_lt h

lemma mul_fin (h : q * w < 2 ^ 53) : Whole.mul q (.fin w) = .fin (q * w) := round_of_lt h

lemma digitFor_digitUnit (h : q < 36) : digitFor (digitUnit q) = .ok q := by
  unfold digitUnit digitFor
  split_ifs <;> first | omega | (congr 1; omega)

lemma readInteger_cons (hq : q < 36) (hsum : i + q * w < 2 ^ 53) :
    readInteger bias k (.fin i) (.fin w) (digitUnit q :: rest) =
      if q < threshold bias k then .ok (.fin (i + q * w), rest)
      else readInteger bias (k + base) (.fin (i + q * w))
        (Whole.mul (base - threshold bias k) (.fin w)) rest := by
  rw [readInteger, digitFor_digitUnit hq]
  simp only [thresholdOf_natCast]
  rw [mul_fin (by omega), add_fin hsum]

/-- **An integer is read as it was written**, on top of what there was. -/
lemma readInteger_digitsFrom (hq : q ≤ fuel) (hsum : i + q * w < 2 ^ 47) :
    readInteger bias k (.fin i) (.fin w) ((digitsFrom bias fuel k q).map digitUnit ++ rest) =
      .ok (.fin (i + q * w), rest) := by
  induction fuel generalizing k q w i with
  | zero =>
    obtain rfl := Nat.le_zero.mp hq
    rw [digitsFrom, List.map_singleton, List.singleton_append,
      readInteger_cons (by decide) (by omega), if_pos (threshold_bounds bias k).1]
  | succ fuel ih =>
    obtain ⟨hpos, htop⟩ := threshold_bounds bias k
    rw [digitsFrom]
    by_cases hlast : q < threshold bias k
    · rw [if_pos hlast, List.map_singleton, List.singleton_append,
        readInteger_cons (by omega) (by omega), if_pos hlast]
    · obtain ⟨t, ht⟩ : ∃ t, threshold bias k = t := ⟨_, rfl⟩
      rw [ht] at hpos htop hlast ⊢
      obtain ⟨digit, hdigit⟩ : ∃ digit, t + (q - t) % (base - t) = digit := ⟨_, rfl⟩
      obtain ⟨next, hnext⟩ : ∃ next, (q - t) / (base - t) = next := ⟨_, rfl⟩
      have hbase : base = 36 := rfl
      have hmod : (q - t) % (base - t) < base - t := Nat.mod_lt _ (by omega)
      have hq' : q = digit + next * (base - t) := by
        have hdiv := Nat.mod_add_div' (q - t) (base - t)
        rw [hnext] at hdiv
        omega
      have hless : next ≤ fuel := by
        have hle := Nat.div_le_self (q - t) (base - t)
        omega
      have hvalue : i + q * w = i + digit * w + next * ((base - t) * w) := by
        conv_lhs => rw [hq', Nat.add_mul, Nat.mul_assoc, ← Nat.add_assoc]
      have hw : w ≤ q * w := Nat.le_mul_of_pos_left w (by omega)
      have hnextw : (base - t) * w < 2 ^ 53 := by
        have hle : (base - t) * w ≤ 36 * w := Nat.mul_le_mul_right w (by omega)
        omega
      rw [if_neg hlast, hdigit, hnext, List.map_cons, List.cons_append,
        readInteger_cons (by omega) (by omega), ht, if_neg (by omega), mul_fin hnextw,
        ih hless (by omega), hvalue]

/-! ### Reading anything -/

lemma length_of_readInteger {bias : ℤ} {i w total : Whole}
    (h : readInteger bias k i w tail = .ok (total, rest)) : rest.length < tail.length := by
  induction tail generalizing k i w with
  | nil => cases h
  | cons code tail ih =>
    rw [readInteger] at h
    split at h
    · cases h
    · simp only at h
      split_ifs at h
      · cases h
        exact Nat.lt_add_one _
      · exact Nat.lt_add_one_of_lt (ih h)

/-- What is added to is whole if the sum is, and no greater where sums are exact. -/
lemma le_of_add {a b : Whole} (h : a.add b = .fin total) (hsmall : total < 2 ^ 53) :
    ∃ n ≤ total, a = .fin n := by
  cases a with
  | fin n =>
    refine ⟨n, ?_, rfl⟩
    cases b with
    | fin m =>
      cases hround : Double.nearest (n + m) 1 with
      | none =>
        rw [Whole.add, Whole.round, hround] at h
        cases h
      | some v =>
        rw [Whole.add, Whole.round, hround] at h
        cases h
        have hexact := Double.eq_of_nearest hround hsmall
        omega
    | infinite => cases h
    | nan => cases h
  | infinite => cases b <;> cases h
  | nan => cases b <;> cases h

/-- A reader only goes on. -/
lemma le_of_readInteger {bias : ℤ} {i w : Whole}
    (h : readInteger bias k i w tail = .ok (.fin total, rest)) (hsmall : total < 2 ^ 53) :
    ∃ n ≤ total, i = .fin n := by
  induction tail generalizing k i w with
  | nil => cases h
  | cons code tail ih =>
    rw [readInteger] at h
    split at h
    · cases h
    · simp only at h
      split_ifs at h
      · rw [Except.ok.injEq, Prod.mk.injEq] at h
        exact le_of_add h.1 hsmall
      · obtain ⟨v, hv, hadd⟩ := ih h
        obtain ⟨n, hn, hi⟩ := le_of_add hadd (by omega)
        exact ⟨n, hn.trans hv, hi⟩

/-! ### What is inserted -/

/-- The units of a list of code points. -/
def unitsOf (t : List ℕ) : List ℕ := t.flatMap Utf16.unitsOfPoint

lemma encode_eq_unitsOf (s : List Char) : Utf16.encode s = unitsOf (s.map Char.toNat) := by
  rw [unitsOf, List.flatMap_map]
  rfl

lemma unitsOf_of_basic {t : List ℕ} (h : ∀ c ∈ t, c < 0x10000) : unitsOf t = t := by
  induction t with
  | nil => rfl
  | cons c t ih =>
    obtain ⟨hc, ht⟩ := List.forall_mem_cons.mp h
    rw [unitsOf, List.flatMap_cons, Utf16.unitsOfPoint, if_pos hc, ← unitsOf, ih ht]
    rfl

/-- The integer that was written for an insertion names it. -/
lemma insertion_of_eq (htotal : total = (m - state.n) * (state.output.length + 1) + j)
    (hj : j ≤ state.output.length) (hm : state.n ≤ m) (hpoint : m ≤ 0x10ffff) :
    insertion state (.fin total) = .ok
      { n := m
        i := j + 1
        bias := adapt (total - state.i) (state.output.length + 1) (state.i = 0)
        output := state.output.take j ++ Utf16.unitsOfPoint m ++ state.output.drop j } := by
  have hpos : 0 < state.output.length + 1 := Nat.succ_pos _
  have hdiv : total / (state.output.length + 1) = m - state.n := by
    rw [htotal, Nat.mul_comm, Nat.mul_add_div hpos, Nat.div_eq_of_lt (by omega), Nat.add_zero]
  have hmod : total % (state.output.length + 1) = j := by
    rw [htotal, Nat.mul_comm, Nat.mul_add_mod, Nat.mod_eq_of_lt (by omega)]
  have hn : state.n + (m - state.n) = m := by omega
  simp only [insertion, hdiv, hmod, hn, if_neg (not_lt.mpr hpoint)]

lemma exists_total {state : State} {total : Whole} (h : insertion state total = .ok after) :
    ∃ n, total = .fin n := by
  cases total with
  | fin n => exact ⟨n, rfl⟩
  | infinite =>
    rw [insertion] at h
    split_ifs at h
  | nan => cases h

lemma n_le_of_insertion {total : Whole} (h : insertion state total = .ok after) :
    state.n ≤ after.n := by
  obtain ⟨n, rfl⟩ := exists_total h
  simp only [insertion] at h
  split_ifs at h
  cases h
  exact Nat.le_add_right _ _

/-- **Outside the basic plane an insertion shows in what comes of it**: if a text does, so was what
there was before, and a character was put into it. -/
lemma exists_of_insertion (h : insertion state (.fin total) = .ok after)
    (hn : 0x10000 ≤ state.n) {s : List Char} (hs : after.output = Utf16.encode s) :
    ∃ x c y, s = x ++ c :: y ∧ state.output = Utf16.encode (x ++ y) ∧ after.n = c.toNat ∧
      after.i = (Utf16.encode x).length + 1 ∧ state.n ≤ c.toNat ∧
      total = (c.toNat - state.n) * (state.output.length + 1) + (Utf16.encode x).length := by
  simp only [insertion] at h
  split_ifs at h with hpoint
  cases h
  simp only at hs ⊢
  obtain ⟨point, hpointeq⟩ : ∃ point, state.n + total / (state.output.length + 1) = point :=
    ⟨_, rfl⟩
  obtain ⟨place, hplace⟩ : ∃ place, total % (state.output.length + 1) = place := ⟨_, rfl⟩
  have hle : place ≤ state.output.length := by
    have hlt : total % (state.output.length + 1) < state.output.length + 1 :=
      Nat.mod_lt total (Nat.succ_pos _)
    omega
  have hge : state.n ≤ point := hpointeq ▸ Nat.le_add_right _ _
  have hunits : Utf16.unitsOfPoint point =
      [0xd800 + (point - 0x10000) / 0x400, 0xdc00 + (point - 0x10000) % 0x400] :=
    if_neg (by omega)
  rw [hpointeq, hplace, hunits, List.append_assoc, List.cons_append, List.singleton_append] at hs
  have hlead : Utf16.isLead (0xd800 + (point - 0x10000) / 0x400) := by
    simp only [Utf16.isLead, Bool.and_eq_true, decide_eq_true_eq]
    omega
  obtain ⟨x, c, y, rfl, hx, hc, hy⟩ := Utf16.exists_of_pair hlead hs.symm
  have hcpoint : c.toNat = point := by
    have hbounds := Utf8.toNat_bounds c
    unfold Utf16.unitsOf Utf16.unitsOfPoint at hc
    split_ifs at hc with hbasic
    · simp at hc
    · simp only [List.cons.injEq, and_true] at hc
      omega
  have hlength : (Utf16.encode x).length = place := by
    rw [← hx, List.length_take_of_le hle]
  refine ⟨x, c, y, rfl, ?_, hpointeq.trans hcpoint.symm, by rw [hlength, hplace],
    hcpoint ▸ hge, ?_⟩
  · rw [Utf16.encode_append, ← hx, ← hy, List.take_append_drop]
  · rw [hlength, hcpoint, ← hpointeq, ← hplace, Nat.add_sub_cancel_left, Nat.mul_comm,
      Nat.div_add_mod]

lemma length_encode_le (s : List Char) : (Utf16.encode s).length ≤ 2 * s.length := by
  induction s with
  | nil => rfl
  | cons c s ih =>
    have hc : (Utf16.unitsOf c).length ≤ 2 := by
      unfold Utf16.unitsOf Utf16.unitsOfPoint
      split_ifs <;> simp
    rw [Utf16.encode_cons, List.length_append, List.length_cons]
    omega

lemma length_encode_take_le {x y : List Char} {q : ℕ} (h : q ≤ x.length) :
    (Utf16.encode ((x ++ y).take q)).length ≤ (Utf16.encode x).length := by
  have hsplit := congrArg Utf16.encode (List.take_append_drop q x)
  rw [Utf16.encode_append] at hsplit
  rw [List.take_append_of_le_length h, ← hsplit, List.length_append]
  exact Nat.le_add_right _ _

/-- A turn of the loop and those after it. -/
lemma exists_turn (h : readAll (fuel + 1) state tail = .ok rest) (htail : tail ≠ []) :
    ∃ total left after, readInteger state.bias base (.fin state.i) (.fin 1) tail =
        .ok (total, left) ∧
      insertion state total = .ok after ∧ readAll fuel after left = .ok rest := by
  rw [readAll, if_neg htail] at h
  split at h
  · cases h
  · next hread =>
    split at h
    · cases h
    · next hinsert => exact ⟨_, _, _, hread, hinsert, h⟩

/-- The places of units come in the order of those of characters. -/
lemma ordered_of_insertion {i : ℕ} {x y : List Char} {c : Char}
    (htotal : total =
      (c.toNat - state.n) * (state.output.length + 1) + (Utf16.encode x).length)
    (hn : state.n ≤ c.toNat) (hle : state.n = c.toNat → state.i ≤ total)
    (hi : ∀ q ≤ (x ++ y).length, state.i ≤ (Utf16.encode ((x ++ y).take q)).length → i ≤ q) :
    state.n < c.toNat ∨ state.n = c.toNat ∧ i ≤ x.length := by
  rcases hn.lt_or_eq with hlt | heq
  · exact .inl hlt
  · refine .inr ⟨heq, hi x.length (by simp) ?_⟩
    have hreached := hle heq
    rw [htotal, heq, Nat.sub_self, Nat.zero_mul, Nat.zero_add] at hreached
    rwa [List.take_left]

lemma insertAt_map (x y : List Char) (c : Char) :
    insertAt ((x ++ y).map Char.toNat) (c.toNat, x.length) = (x ++ c :: y).map Char.toNat := by
  have hx : (x.map Char.toNat).length = x.length := List.length_map _
  rw [insertAt, List.map_append, List.map_append, List.map_cons, ← hx, List.take_left,
    List.drop_left]

lemma ordered_behind {x y : List Char} {c : Char} {steps : List (ℕ × ℕ)}
    (hpoint : after.n = c.toNat) (hplace : after.i = (Utf16.encode x).length + 1)
    (h : ∀ i, (∀ q ≤ (x ++ c :: y).length,
        after.i ≤ (Utf16.encode ((x ++ c :: y).take q)).length → i ≤ q) →
      Ordered after.n i (x ++ c :: y).length steps) :
    Ordered c.toNat (x.length + 1) ((x ++ y).length + 1) steps := by
  have hrest := h (x.length + 1) fun q _ hq => by
    by_contra hlt
    have hle := length_encode_take_le (y := c :: y) (Nat.le_of_lt_succ (not_le.mp hlt))
    omega
  rwa [hpoint, List.length_append, List.length_cons, ← Nat.add_assoc,
    ← List.length_append] at hrest

/-- **What a reader makes of anything is made in order**, as soon as it is outside the basic plane,
and as far as a text comes of it. -/
lemma exists_of_readAll {s : List Char} (h : readAll fuel state tail = .ok (Utf16.encode s))
    (hn : 0x10000 ≤ state.n) (hsize : s.length ≤ 2 ^ 50) :
    ∃ t steps, state.output = Utf16.encode t ∧
      insertAll (t.map Char.toNat) steps = s.map Char.toNat ∧
      ∀ i, (∀ q ≤ t.length, state.i ≤ (Utf16.encode (t.take q)).length → i ≤ q) →
        Ordered state.n i t.length steps := by
  induction fuel generalizing state tail with
  | zero =>
    rw [readAll, Except.ok.injEq] at h
    exact ⟨s, [], h, rfl, fun i hi => trivial⟩
  | succ fuel ih =>
    by_cases htail : tail = []
    · rw [readAll, if_pos htail, Except.ok.injEq] at h
      exact ⟨s, [], h, rfl, fun i hi => trivial⟩
    obtain ⟨whole, left, after, hread, hinsert, hrun⟩ := exists_turn h htail
    obtain ⟨total, rfl⟩ := exists_total hinsert
    have hafter := hn.trans (n_le_of_insertion hinsert)
    obtain ⟨t, steps, hout, hsteps, hordered⟩ := ih hrun hafter
    obtain ⟨x, c, y, rfl, hbefore, hpoint, hplace, hge, htotal⟩ :=
      exists_of_insertion hinsert hn hout
    refine ⟨x ++ y, (c.toNat, x.length) :: steps, hbefore, ?_, fun i hi => ?_⟩
    · rw [insertAll_cons, insertAt_map, hsteps]
    · refine ⟨ordered_of_insertion htotal hge (fun heq => ?_) hi, by simp,
        ordered_behind hpoint hplace hordered⟩
      -- the text is short, so what was read is exact
      have hlength := congrArg List.length hsteps
      have hunits := length_encode_le (x ++ y)
      rw [← hbefore] at hunits
      rw [length_insertAll, List.length_map, List.length_map, List.length_append,
        List.length_cons] at hlength
      have hplaces := congrArg List.length hbefore
      rw [Utf16.encode_append, List.length_append] at hplaces
      rw [List.length_append] at hunits
      rw [heq, Nat.sub_self, Nat.zero_mul, Nat.zero_add] at htotal
      obtain ⟨n, hle, hfin⟩ := le_of_readInteger hread (by omega)
      cases hfin
      exact hle

/-! ### Reading abreast of the writer -/

/-- The reader has a text of code points, and before it lie the digits for some insertions into
it. -/
structure Abreast (fuel : ℕ) (state : State) (tail t : List ℕ) (steps : List (ℕ × ℕ)) : Prop where
  output : state.output = unitsOf t
  digits : ∃ bias : ℕ, state.bias = bias ∧
    tail = (written state.n state.i t.length bias (state.i = 0) steps).map digitUnit
  enough : tail.length ≤ fuel
  ordered : Ordered state.n state.i t.length steps
  settled : Settled state.n state.i t
  place : state.i ≤ t.length
  points : ∀ step ∈ steps, step.1 ≤ 0x10ffff
  size : t.length + steps.length ≤ 63

section Abreast

variable {t : List ℕ} {steps : List (ℕ × ℕ)}

lemma digitsFrom_ne_nil (bias fuel k q : ℕ) : digitsFrom bias fuel k q ≠ [] := by
  cases fuel with
  | zero => exact List.cons_ne_nil _ _
  | succ fuel =>
    rw [digitsFrom]
    split_ifs <;> exact List.cons_ne_nil _ _

/-- The next integer is read as it was written. -/
lemma readInteger_of_abreast (h : Abreast fuel state tail t ((m, j) :: steps)) :
    tail ≠ [] ∧ state.i ≤ (m - state.n) * (t.length + 1) + j ∧
      (m - state.n) * (t.length + 1) + j < 2 ^ 31 ∧
      ∃ left, readInteger state.bias base (.fin state.i) (.fin 1) tail =
          .ok (.fin ((m - state.n) * (t.length + 1) + j), left) ∧
        left = (written m (j + 1) (t.length + 1)
          (Bootstring.adapt ((m - state.n) * (t.length + 1) + j - state.i) (t.length + 1)
            (state.i = 0)) false steps).map digitUnit := by
  obtain ⟨bias, hbias, htail⟩ := h.digits
  obtain ⟨hm, hj, -⟩ := h.ordered
  have hpoint := h.points (m, j) List.mem_cons_self
  have hsize := h.size
  have hplace := h.place
  obtain ⟨far, hfar⟩ : ∃ far, (m - state.n) * (t.length + 1) = far := ⟨_, rfl⟩
  have hbehind : state.i ≤ far + j := by
    rcases hm with hlt | ⟨-, hle⟩
    · have hone : 1 * (t.length + 1) ≤ (m - state.n) * (t.length + 1) :=
        Nat.mul_le_mul_right _ (by omega)
      omega
    · omega
  have hsmall : far + j < 2 ^ 31 := by
    have hmul : (m - state.n) * (t.length + 1) ≤ 0x10ffff * 63 :=
      Nat.mul_le_mul (by omega) (by rw [List.length_cons] at hsize; omega)
    rw [List.length_cons] at hsize
    omega
  rw [written, List.map_append] at htail
  rw [hfar] at htail ⊢
  refine ⟨?_, hbehind, hsmall, _, ?_, rfl⟩
  · rw [htail]
    simp [integerDigits, digitsFrom_ne_nil]
  · have hsum : far + j = state.i + (far + j - state.i) * 1 := by omega
    rw [htail, hbias, integerDigits, readInteger_digitsFrom le_rfl (by omega), ← hsum]

lemma unitsOf_insertAt (ht : ∀ c ∈ t, c < 0x10000) :
    unitsOf (insertAt t (m, j)) = t.take j ++ Utf16.unitsOfPoint m ++ t.drop j := by
  have htake : unitsOf (t.take j) = t.take j :=
    unitsOf_of_basic fun c hc => ht c (List.mem_of_mem_take hc)
  have hdrop : unitsOf (t.drop j) = t.drop j :=
    unitsOf_of_basic fun c hc => ht c (List.mem_of_mem_drop hc)
  rw [insertAt, unitsOf, List.flatMap_append, List.flatMap_cons, ← unitsOf, ← unitsOf, htake, hdrop,
    List.append_assoc]

/-- **A reader in the basic plane stays abreast** of the writer by one turn. -/
lemma exists_step (h : Abreast fuel state tail t ((m, j) :: steps))
    (ht : ∀ c ∈ t, c < 0x10000) :
    ∃ fuel' after left, readAll fuel state tail = readAll fuel' after left ∧
      Abreast fuel' after left (insertAt t (m, j)) steps ∧ after.n = m ∧ after.i = j + 1 := by
  obtain ⟨htail, hbehind, hsmall, left, hread, hleft⟩ := readInteger_of_abreast h
  obtain ⟨hm, hj, hordered⟩ := h.ordered
  have hout : state.output = t := h.output.trans (unitsOf_of_basic ht)
  have hpoint := h.points (m, j) List.mem_cons_self
  have hle : state.n ≤ m := hm.elim le_of_lt fun h => h.1.le
  have hlength := length_of_readInteger hread
  have hfuel := h.enough
  obtain ⟨fuel', rfl⟩ : ∃ fuel', fuel = fuel' + 1 := ⟨fuel - 1, by omega⟩
  obtain ⟨total, htotal⟩ : ∃ total, (m - state.n) * (t.length + 1) + j = total := ⟨_, rfl⟩
  rw [htotal] at hbehind hsmall hread hleft
  have hinsert : insertion state (.fin total) = .ok
      ⟨m, j + 1, adapt (total - state.i) (t.length + 1) (state.i = 0),
        t.take j ++ Utf16.unitsOfPoint m ++ t.drop j⟩ := by
    rw [insertion_of_eq (by rw [hout]; exact htotal.symm) (by rw [hout]; exact hj) hle hpoint, hout]
  refine ⟨fuel', ⟨m, j + 1, adapt (total - state.i) (t.length + 1) (state.i = 0),
    t.take j ++ Utf16.unitsOfPoint m ++ t.drop j⟩, left, ?_, ?_, rfl, rfl⟩
  · rw [readAll, if_neg htail]
    simp only [hread, hinsert]
  · have hdelta : (total : ℤ) - state.i = (total - state.i : ℕ) := by omega
    have hbias : adapt (total - state.i) (t.length + 1) (state.i = 0) =
        Bootstring.adapt (total - state.i) (t.length + 1) (state.i = 0) := by
      rw [hdelta, adapt_natCast (by omega)]
    constructor
    · exact (unitsOf_insertAt ht).symm
    · refine ⟨_, hbias, ?_⟩
      rw [hleft, length_insertAt]
      simp
    · omega
    · rw [length_insertAt]
      exact hordered
    · exact settled_insertAt h.settled hm hj
    · rw [length_insertAt]
      exact Nat.succ_le_succ hj
    · exact fun step hstep => h.points step (List.mem_cons_of_mem _ hstep)
    · have hsize := h.size
      rw [List.length_cons] at hsize
      rw [length_insertAt]
      omega

lemma readAll_of_abreast_nil (h : Abreast fuel state tail t []) :
    readAll fuel state tail = .ok (unitsOf t) := by
  obtain ⟨bias, -, htail⟩ := h.digits
  rw [written, List.map_nil] at htail
  rw [htail, ← h.output]
  cases fuel with
  | zero => rfl
  | succ fuel => rw [readAll, if_pos rfl]

/-- Whether a code point is outside the basic plane. -/
def isAstral (c : ℕ) : Bool := 0x10000 ≤ c

lemma countP_isAstral_insertAt : (insertAt t (m, j)).countP isAstral =
    t.countP isAstral + if isAstral m then 1 else 0 := by
  have hsplit := congrArg (List.countP isAstral) (List.take_append_drop j t)
  rw [List.countP_append] at hsplit
  simp only [insertAt, List.countP_append, List.countP_cons]
  omega

lemma countP_isAstral_le : t.countP isAstral ≤ (insertAll t steps).countP isAstral :=
  sublist_insertAll.countP_le

lemma countP_isAstral_eq_zero (ht : ∀ c ∈ t, c < 0x10000) : t.countP isAstral = 0 :=
  List.countP_eq_zero.mpr fun c hc => by simpa [isAstral] using ht c hc

/-- **What was written is read** if at most the last insertion is outside the basic plane. -/
lemma readAll_of_abreast (h : Abreast fuel state tail t steps) (ht : ∀ c ∈ t, c < 0x10000)
    (hone : (insertAll t steps).countP isAstral ≤ 1) :
    readAll fuel state tail = .ok (unitsOf (insertAll t steps)) := by
  induction steps generalizing fuel state tail t with
  | nil => exact readAll_of_abreast_nil h
  | cons step steps ih =>
    obtain ⟨m, j⟩ := step
    obtain ⟨fuel', after, left, hrun, hnext, -, -⟩ := exists_step h ht
    rw [hrun, insertAll_cons]
    rw [insertAll_cons] at hone
    by_cases hm : m < 0x10000
    · exact ih hnext (forall_mem_insertAt hm ht) hone
    · cases steps with
      | nil => exact readAll_of_abreast_nil hnext
      | cons step' steps =>
        -- the next insertion is outside as well
        obtain ⟨m', j'⟩ := step'
        have hle : m ≤ m' := h.ordered.2.2.1.elim le_of_lt fun h => h.1.le
        have hfirst : isAstral m := decide_eq_true (not_lt.mp hm)
        have hsecond : isAstral m' := decide_eq_true ((not_lt.mp hm).trans hle)
        rw [insertAll_cons] at hone
        have hcount := countP_isAstral_le.trans hone
        rw [countP_isAstral_insertAt, countP_isAstral_insertAt, if_pos hfirst,
          if_pos hsecond] at hcount
        omega

/-- **Behind a character outside the basic plane a reader goes astray**: no run leads on to the
text that was written. -/
lemma readAll_ne_of_behind (h : Abreast fuel state tail t ((m, j) :: steps))
    (hn : 0x10000 ≤ state.n)
    (hunits : ∀ q ≤ t.length,
      (unitsOf (t.take q)).length = if q < state.i then q else q + 1)
    {s : List Char} (hs : insertAll t ((m, j) :: steps) = s.map Char.toNat) :
    readAll fuel state tail ≠ .ok (Utf16.encode s) := by
  intro hrun
  obtain ⟨htail, hbehind, hsmall, left, hread, -⟩ := readInteger_of_abreast h
  have hlength := length_of_readInteger hread
  have henough := h.enough
  obtain ⟨fuel', rfl⟩ : ∃ fuel', fuel = fuel' + 1 := ⟨fuel - 1, by omega⟩
  obtain ⟨whole, left', after, hread', hinsert, hrun'⟩ := exists_turn hrun htail
  rw [hread] at hread'
  cases hread'
  have hsize : s.length ≤ 2 ^ 50 := by
    have hsize := h.size
    have hmap : (s.map Char.toNat).length = s.length := List.length_map _
    rw [← hs, length_insertAll] at hmap
    omega
  obtain ⟨t', steps', hout, hsteps', hordered'⟩ :=
    exists_of_readAll hrun' (hn.trans (n_le_of_insertion hinsert)) hsize
  obtain ⟨x, c, y, rfl, hbefore, hpoint, hplace, hge, htotal⟩ :=
    exists_of_insertion hinsert hn hout
  -- before this turn the two had the same text
  have ht : t = (x ++ y).map Char.toNat := by
    have hsub : t.Sublist (s.map Char.toNat) := hs ▸ sublist_insertAll
    obtain ⟨s', -, rfl⟩ := List.sublist_map_iff.mp hsub
    rw [h.output, ← encode_eq_unitsOf] at hbefore
    rw [Utf16.encode_injective hbefore]
  have hencode : ∀ q, (Utf16.encode ((x ++ y).take q)).length = (unitsOf (t.take q)).length := by
    intro q
    rw [encode_eq_unitsOf, List.map_take, ← ht]
  have htlength : (x ++ y).length = t.length := by rw [ht, List.length_map]
  -- so the insertion of this turn is the one that was written
  have hordered : Ordered state.n state.i t.length ((c.toNat, x.length) :: steps') := by
    have hi : ∀ q ≤ (x ++ y).length,
        state.i ≤ (Utf16.encode ((x ++ y).take q)).length → state.i ≤ q := by
      intro q hq hle
      rw [hencode, hunits q (hq.trans htlength.le)] at hle
      split_ifs at hle <;> omega
    rw [← htlength]
    exact ⟨ordered_of_insertion htotal hge (fun _ => hbehind) hi, by simp,
      ordered_behind hpoint hplace hordered'⟩
  have hsame := eq_of_insertAll h.settled h.ordered hordered (by
    rw [hs, insertAll_cons, ht, insertAt_map, hsteps'])
  simp only [List.cons.injEq, Prod.mk.injEq] at hsame
  obtain ⟨⟨hm, hj⟩, -⟩ := hsame
  -- but the reader divides by a length that is greater by one
  have hx := hencode x.length
  rw [List.take_left, hunits x.length (by rw [← htlength]; simp)] at hx
  have houtput : state.output.length = t.length + 1 := by
    have hall := hunits t.length le_rfl
    rwa [List.take_length, if_neg (not_lt.mpr h.place), ← h.output] at hall
  rw [houtput, ← hm, Nat.mul_add _ (t.length + 1), Nat.mul_one, hx, ← hj] at htotal
  have hfirst := h.ordered.1
  split_ifs at htotal <;> omega

/-- The first character outside the basic plane stands before the place that is reached. -/
lemma length_unitsOf_take (ht : ∀ c ∈ t, c < 0x10000) (hm : 0x10000 ≤ m) (hj : j ≤ t.length)
    {q : ℕ} (hq : q ≤ (insertAt t (m, j)).length) :
    (unitsOf ((insertAt t (m, j)).take q)).length = if q < j + 1 then q else q + 1 := by
  have hbasic : ∀ l : List ℕ, (∀ c ∈ l, c ∈ t) → unitsOf l = l := fun l hl =>
    unitsOf_of_basic fun c hc => ht c (hl c hc)
  have hlength : (t.take j).length = j := List.length_take_of_le hj
  rw [length_insertAt] at hq
  by_cases hlt : q < j + 1
  · have htake : (insertAt t (m, j)).take q = t.take q := by
      rw [insertAt, List.take_append_of_le_length (by simp only; omega), List.take_take,
        min_eq_left (Nat.le_of_lt_succ hlt)]
    rw [if_pos hlt, htake, hbasic _ fun c hc => List.mem_of_mem_take hc,
      List.length_take_of_le (by omega)]
  · obtain ⟨k, rfl⟩ : ∃ k, q = j + 1 + k := ⟨q - (j + 1), by omega⟩
    have htake : (insertAt t (m, j)).take (j + 1 + k) = t.take j ++ m :: (t.drop j).take k := by
      rw [List.take_add, take_insertAt hj, drop_insertAt hj, List.append_assoc]
      rfl
    have hunits : (Utf16.unitsOfPoint m).length = 2 := by
      rw [Utf16.unitsOfPoint, if_neg (not_lt.mpr hm)]
      rfl
    have hrest : ((t.drop j).take k).length = k :=
      List.length_take_of_le (by rw [List.length_drop]; omega)
    rw [if_neg hlt, htake, unitsOf, List.flatMap_append, List.flatMap_cons, ← unitsOf, ← unitsOf,
      hbasic _ fun c hc => List.mem_of_mem_take hc,
      hbasic _ fun c hc => List.mem_of_mem_drop (List.mem_of_mem_take hc), List.length_append,
      List.length_append, hlength, hunits, hrest]
    omega

/-- **What was written is not read otherwise.** -/
lemma countP_le_of_readAll (h : Abreast fuel state tail t steps) (ht : ∀ c ∈ t, c < 0x10000)
    {s : List Char} (hs : insertAll t steps = s.map Char.toNat)
    (hrun : readAll fuel state tail = .ok (Utf16.encode s)) :
    (insertAll t steps).countP isAstral ≤ 1 := by
  induction steps generalizing fuel state tail t with
  | nil => exact (countP_isAstral_eq_zero ht).trans_le (Nat.zero_le 1)
  | cons step steps ih =>
    obtain ⟨m, j⟩ := step
    obtain ⟨fuel', after, left, hsame, hnext, hn, hi⟩ := exists_step h ht
    rw [hsame] at hrun
    by_cases hm : m < 0x10000
    · exact ih hnext (forall_mem_insertAt hm ht) hs hrun
    · cases steps with
      | nil =>
        rw [insertAll_cons, insertAll_nil, countP_isAstral_insertAt, countP_isAstral_eq_zero ht]
        split_ifs <;> omega
      | cons step' steps =>
        have hplace := h.ordered.2.1
        refine absurd hrun (readAll_ne_of_behind hnext (hn ▸ not_lt.mp hm) (fun q hq => ?_) hs)
        rw [hi]
        exact length_unitsOf_take ht (not_lt.mp hm) hplace hq

end Abreast

/-! ### Labels -/

lemma lastIndexOf_eq_none {unit : ℕ} (h : unit ∉ tail) : lastIndexOf unit tail = none := by
  induction tail with
  | nil => rfl
  | cons u tail ih =>
    obtain ⟨hu, htail⟩ := not_or.mp (mt List.mem_cons.mpr h)
    rw [lastIndexOf, ih htail]
    exact if_neg (Ne.symm hu)

lemma lastIndexOf_append {unit : ℕ} (front : List ℕ) (h : unit ∉ tail) :
    lastIndexOf unit (front ++ unit :: tail) = some front.length := by
  induction front with
  | nil =>
    rw [List.nil_append, lastIndexOf, lastIndexOf_eq_none h]
    exact if_pos rfl
  | cons u front ih => rw [List.cons_append, lastIndexOf, ih, List.length_cons]

lemma delimiter_not_mem (digits : List ℕ) : delimiter ∉ digits.map digitUnit := by
  intro h
  obtain ⟨digit, -, hdigit⟩ := List.mem_map.mp h
  unfold digitUnit delimiter at hdigit
  split_ifs at hdigit <;> omega

/-- The basic characters and the digits are found in a label. -/
lemma readPayload_encode (input : List ℕ) :
    ∃ tail, tail = (written initialN 0 (input.countP (· < initialN)) initialBias true
        (allSteps input input.length initialN)).map digitUnit ∧
      readPayload (encode input) = readAll tail.length
        ⟨initialN, 0, initialBias, input.filter (· < initialN)⟩ tail := by
  refine ⟨_, rfl, ?_⟩
  rw [encode_eq_written, readPayload]
  generalize (written initialN 0 (input.countP (· < initialN)) initialBias true
    (allSteps input input.length initialN)) = digits
  cases hbasic : input.filter (· < initialN) with
  | nil => simp [lastIndexOf_eq_none (delimiter_not_mem digits)]
  | cons c basic =>
    have hplace := lastIndexOf_append (c :: basic) (delimiter_not_mem digits)
    have hpayload : c :: basic ++ (if c :: basic = [] then [] else [delimiter]) ++
        digits.map digitUnit = c :: basic ++ delimiter :: digits.map digitUnit := by simp
    rw [hpayload, hplace]
    simp

/-- The label of a text. -/
def labelOf (s : List Char) : List ℕ := labelStart ++ encode (s.map Char.toNat)

lemma decodePunycodeLabel_labelOf (s : List Char) : decodePunycodeLabel (labelOf s) =
    match readPayload (encode (s.map Char.toNat)) with
    | .ok output => some output
    | .error .thrown => some (labelOf s)
    | .error .endless => none := by
  have hstart : labelStart.isPrefixOf (labelOf s) :=
    List.isPrefixOf_iff_prefix.mpr (List.prefix_append _ _)
  have hdrop : (labelOf s).drop labelStart.length = encode (s.map Char.toNat) := List.drop_left
  rw [decodePunycodeLabel, if_pos hstart, hdrop]

lemma lt_of_mem_filter {input : List ℕ} {c : ℕ} (h : c ∈ input.filter (· < initialN)) : c < 128 :=
  of_decide_eq_true (List.mem_filter.mp h).2

/-- Labels are written in basic characters. -/
lemma labelOf_basic (s : List Char) : ∀ u ∈ labelOf s, u < 128 := by
  intro u hu
  rw [labelOf, encode_eq_written, List.mem_append, List.mem_append, List.mem_append] at hu
  rcases hu with hu | (hu | hu) | hu
  · have hall : ∀ u ∈ labelStart, u < 128 := by decide
    exact hall u hu
  · exact lt_of_mem_filter hu
  · split_ifs at hu
    · cases hu
    · rw [List.mem_singleton.mp hu]
      decide
  · obtain ⟨digit, hdigit, rfl⟩ := List.mem_map.mp hu
    have hbase : digit < 36 := lt_base_of_mem_written hdigit
    unfold digitUnit
    split_ifs <;> omega

/-- A text with more than basic characters is no label. -/
lemma encode_ne_labelOf {s : List Char} (h : ∃ c ∈ s, 128 ≤ c.toNat) :
    Utf16.encode s ≠ labelOf s := by
  intro heq
  obtain ⟨c, hc, hlarge⟩ := h
  obtain ⟨u, hu, hularge⟩ : ∃ u ∈ Utf16.unitsOf c, 128 ≤ u := by
    unfold Utf16.unitsOf Utf16.unitsOfPoint
    split_ifs
    · exact ⟨c.toNat, List.mem_cons_self, hlarge⟩
    · exact ⟨_, List.mem_cons_self, by omega⟩
  have hmem : u ∈ Utf16.encode s := List.mem_flatMap.mpr ⟨c, hc, hu⟩
  have hsmall := labelOf_basic s u (heq ▸ hmem)
  omega

lemma abreast_encode {s : List Char} (hlength : s.length ≤ 63) {tail : List ℕ}
    (htail : tail = (written initialN 0 ((s.map Char.toNat).countP (· < initialN)) initialBias true
      (allSteps (s.map Char.toNat) (s.map Char.toNat).length initialN)).map digitUnit) :
    Abreast tail.length ⟨initialN, 0, initialBias, (s.map Char.toNat).filter (· < initialN)⟩ tail
      ((s.map Char.toNat).filter (· < initialN))
      (allSteps (s.map Char.toNat) (s.map Char.toNat).length initialN) where
  output := (unitsOf_of_basic fun c hc => (lt_of_mem_filter hc).trans (by decide)).symm
  digits := ⟨initialBias, rfl, by rw [← List.countP_eq_length_filter]; exact htail⟩
  enough := le_rfl
  ordered := by
    rw [← List.countP_eq_length_filter]
    exact ordered_allSteps (.inr ⟨rfl, rfl⟩)
  settled := by
    constructor
    · exact fun c hc => (lt_of_mem_filter hc).le
    · exact fun c hc => lt_of_mem_filter hc
  place := Nat.zero_le _
  points := by
    intro step hstep
    have hmem := mem_insertAll (t := (s.map Char.toNat).filter (· < initialN)) hstep
    rw [insertAll_allSteps List.countP_le_length] at hmem
    obtain ⟨c, -, hc⟩ := List.mem_map.mp hmem
    have hbounds := Utf8.toNat_bounds c
    omega
  size := by
    have hall := congrArg List.length (@insertAll_allSteps initialN _ (s.map Char.toNat)
      List.countP_le_length)
    rw [length_insertAll] at hall
    rw [hall, List.length_map]
    exact hlength

/-- **A label is read back** exactly if at most one character of its text is outside the basic
plane. -/
theorem decodePunycodeLabel_labelOf_iff (s : List Char) (hs : ∃ c ∈ s, 128 ≤ c.toNat)
    (hlength : s.length ≤ 63) :
    decodePunycodeLabel (labelOf s) = some (Utf16.encode s) ↔
      s.countP (fun c => isAstral c.toNat) ≤ 1 := by
  obtain ⟨tail, htail, hpayload⟩ := readPayload_encode (s.map Char.toNat)
  have habreast := abreast_encode hlength htail
  have hbuilt : insertAll ((s.map Char.toNat).filter (· < initialN))
      (allSteps (s.map Char.toNat) (s.map Char.toNat).length initialN) = s.map Char.toNat :=
    insertAll_allSteps List.countP_le_length
  have hbasic : ∀ c ∈ (s.map Char.toNat).filter (· < initialN), c < 0x10000 := fun c hc =>
    (lt_of_mem_filter hc).trans (by decide)
  have hcount : (s.map Char.toNat).countP isAstral = s.countP fun c => isAstral c.toNat :=
    List.countP_map
  rw [decodePunycodeLabel_labelOf, hpayload]
  constructor
  · intro h
    have hrun : readAll tail.length ⟨initialN, 0, initialBias,
        (s.map Char.toNat).filter (· < initialN)⟩ tail = .ok (Utf16.encode s) := by
      split at h
      · next output hrun =>
        rw [hrun, Option.some.inj h]
      · exact absurd (Option.some.inj h).symm (encode_ne_labelOf hs)
      · cases h
    have hle := countP_le_of_readAll habreast hbasic hbuilt hrun
    rwa [hbuilt, hcount] at hle
  · intro h
    have hrun := readAll_of_abreast habreast hbasic (by rwa [hbuilt, hcount])
    rw [hbuilt, ← encode_eq_unitsOf] at hrun
    rw [hrun]

theorem decodePunycodeLabel_labelOf_iff_city :
    decodePunycodeLabel (labelOf ['m', 'ü', 'n', 'c', 'h', 'e', 'n']) =
        some (Utf16.encode ['m', 'ü', 'n', 'c', 'h', 'e', 'n']) ↔
      ['m', 'ü', 'n', 'c', 'h', 'e', 'n'].countP (fun c => isAstral c.toNat) ≤ 1 :=
  decodePunycodeLabel_labelOf_iff _ ⟨'ü', by decide, by decide⟩ (by decide)

/-- **Two faces change places**: the second is put in front of the first. -/
theorem two_faces_not_read : (∃ c ∈ ['😀', '😁'], 128 ≤ c.toNat) ∧
    decodePunycodeLabel (labelOf ['😀', '😁']) = some (Utf16.encode ['😁', '😀']) ∧
    decodePunycodeLabel (labelOf ['😀', '😁']) ≠ some (Utf16.encode ['😀', '😁']) := by
  refine ⟨⟨'😀', by decide, by decide⟩, by decide +kernel, by decide +kernel⟩

end Workbench.Web.Punycode
