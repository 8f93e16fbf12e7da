import Mathlib.Data.List.MinMax
import Workbench.Lib.Insertions

/-!
Writing a text in Bootstring with the parameters of Punycode (RFC 3492).

The basic characters of a text are written as they stand, and then, for each other character in
order, how far the reader has to go on from the last place and character it knows. The writer counts
this while it goes over the text again for each character; here it is shown to write out the ordered
insertions that build the text.
-/

namespace Workbench.Lib.Bootstring

open Insertions

def base : ℕ := 36
def tmin : ℕ := 1
def tmax : ℕ := 26
def skew : ℕ := 38
def damp : ℕ := 700
def initialBias : ℕ := 72
def initialN : ℕ := 128
def delimiter : ℕ := 45

/-! ### Integers of variable length -/

def threshold (bias k : ℕ) : ℕ :=
  if k ≤ bias then tmin else if bias + tmax ≤ k then tmax else k - bias

/-- The digits of an integer, least significant first; the first one below its threshold is the
last. The fuel is no less than the integer. -/
def digitsFrom (bias : ℕ) : ℕ → ℕ → ℕ → List ℕ
  | 0, _, q => [q]
  | fuel + 1, k, q =>
    let t := threshold bias k
    if q < t then [q]
    else (t + (q - t) % (base - t)) :: digitsFrom bias fuel (k + base) ((q - t) / (base - t))

def integerDigits (bias delta : ℕ) : List ℕ := digitsFrom bias delta base delta

def digitUnit (digit : ℕ) : ℕ := if digit < 26 then 97 + digit else 22 + digit

/-! ### Bias adaptation -/

/-- Divides until there is little left, and counts the divisions by the base. -/
def scaleDown : ℕ → ℕ → ℕ → ℕ × ℕ
  | 0, delta, k => (delta, k)
  | fuel + 1, delta, k =>
    if (base - tmin) * tmax / 2 < delta then scaleDown fuel (delta / (base - tmin)) (k + base)
    else (delta, k)

def adapt (delta numPoints : ℕ) (first : Bool) : ℕ :=
  let delta := if first then delta / damp else delta / 2
  let delta := delta + delta / numPoints
  let (delta, k) := scaleDown delta delta 0
  k + (base - tmin + 1) * delta / (delta + skew)

/-! ### The writer -/

structure Coder where
  n : ℕ
  delta : ℕ
  bias : ℕ
  /-- how many characters have been handled -/
  h : ℕ

/-- One pass over the text, for one character; `b` is the number of basic characters. -/
def pass (b : ℕ) : Coder → List ℕ → Coder × List ℕ
  | coder, [] => ({ coder with delta := coder.delta + 1, n := coder.n + 1 }, [])
  | coder, c :: input =>
    if c < coder.n then pass b { coder with delta := coder.delta + 1 } input
    else if c = coder.n then
      let rest := pass b
        ⟨coder.n, 0, adapt coder.delta (coder.h + 1) (coder.h = b), coder.h + 1⟩ input
      (rest.1, integerDigits coder.bias coder.delta ++ rest.2)
    else pass b coder input

/-- The passes for the characters that are left, in order; the fuel is no less than their number. -/
def passes (b : ℕ) (input : List ℕ) : ℕ → Coder → List ℕ
  | 0, _ => []
  | fuel + 1, coder =>
    match (input.filter (coder.n ≤ ·)).min? with
    | none => []
    | some m =>
      let done := pass b
        { coder with n := m, delta := coder.delta + (m - coder.n) * (coder.h + 1) } input
      done.2 ++ passes b input fuel done.1

def encode (input : List ℕ) : List ℕ :=
  let basic := input.filter (· < initialN)
  basic ++ (if basic = [] then [] else [delimiter]) ++
    (passes basic.length input input.length ⟨initialN, 0, initialBias, basic.length⟩).map digitUnit

/-! ### The insertions that are written -/

/-- The insertions of one pass, where `j` characters no greater than `n` stand in front. -/
def passSteps (n : ℕ) : ℕ → List ℕ → List (ℕ × ℕ)
  | _, [] => []
  | j, c :: input =>
    if c < n then passSteps n (j + 1) input
    else if c = n then (n, j) :: passSteps n (j + 1) input
    else passSteps n j input

def allSteps (input : List ℕ) : ℕ → ℕ → List (ℕ × ℕ)
  | 0, _ => []
  | fuel + 1, n =>
    match (input.filter (n ≤ ·)).min? with
    | none => []
    | some m => passSteps m 0 input ++ allSteps input fuel (m + 1)

/-- The digits for some insertions, of a reader at the place `i` of character `n`. -/
def written : ℕ → ℕ → ℕ → ℕ → Bool → List (ℕ × ℕ) → List ℕ
  | _, _, _, _, _, [] => []
  | n, i, h, bias, first, (m, j) :: steps =>
    let delta := (m - n) * (h + 1) + j - i
    integerDigits bias delta ++ written m (j + 1) (h + 1) (adapt delta (h + 1) first) false steps

variable {b n m n₀ i j length fuel : ℕ} {coder : Coder} {input front : List ℕ}
  {more : List (ℕ × ℕ)}

lemma passSteps_cons {c : ℕ} : passSteps n j (c :: input) =
    if c < n then passSteps n (j + 1) input
    else if c = n then (n, j) :: passSteps n (j + 1) input
    else passSteps n j input := rfl

lemma allSteps_succ : allSteps input (fuel + 1) n =
    match (input.filter (n ≤ ·)).min? with
    | none => []
    | some m => passSteps m 0 input ++ allSteps input fuel (m + 1) := rfl

/-! ### What is counted -/

lemma threshold_bounds (bias k : ℕ) : 0 < threshold bias k ∧ threshold bias k ≤ 26 := by
  unfold threshold tmin tmax
  split_ifs <;> omega

lemma lt_base_of_mem_digitsFrom {bias k q digit : ℕ} (hq : q ≤ fuel)
    (h : digit ∈ digitsFrom bias fuel k q) : digit < base := by
  have hbase : base = 36 := rfl
  induction fuel generalizing k q with
  | zero =>
    rw [digitsFrom, List.mem_singleton] at h
    omega
  | succ fuel ih =>
    obtain ⟨hpos, htop⟩ := threshold_bounds bias k
    rw [digitsFrom] at h
    split_ifs at h with hlast
    · rw [List.mem_singleton] at h
      omega
    · rcases List.mem_cons.mp h with rfl | h
      · have hmod : (q - threshold bias k) % (base - threshold bias k) <
            base - threshold bias k := Nat.mod_lt _ (by omega)
        omega
      · have hle := Nat.div_le_self (q - threshold bias k) (base - threshold bias k)
        exact ih (by omega) h

lemma lt_base_of_mem_written {h bias digit : ℕ} {first : Bool} {steps : List (ℕ × ℕ)}
    (hmem : digit ∈ written n i h bias first steps) : digit < base := by
  induction steps generalizing n i h bias first with
  | nil => cases hmem
  | cons step steps ih =>
    obtain ⟨m, j⟩ := step
    rw [written] at hmem
    rcases List.mem_append.mp hmem with hmem | hmem
    · exact lt_base_of_mem_digitsFrom le_rfl hmem
    · exact ih hmem

lemma countP_cons_of_lt {c : ℕ} (h : c < n) :
    (c :: input).countP (· < n) = input.countP (· < n) + 1 :=
  List.countP_cons_of_pos (by simpa using h)

lemma countP_cons_of_le {c : ℕ} (h : n ≤ c) :
    (c :: input).countP (· < n) = input.countP (· < n) :=
  List.countP_cons_of_neg (by simpa using h)

lemma pass_of_lt {c : ℕ} (h : c < coder.n) :
    pass b coder (c :: input) = pass b { coder with delta := coder.delta + 1 } input :=
  if_pos h

lemma pass_of_gt {c : ℕ} (h : coder.n < c) : pass b coder (c :: input) = pass b coder input :=
  (if_neg h.not_gt).trans (if_neg h.ne')

lemma pass_of_eq : pass b coder (coder.n :: input) =
    let rest := pass b
      ⟨coder.n, 0, adapt coder.delta (coder.h + 1) (coder.h = b), coder.h + 1⟩ input
    (rest.1, integerDigits coder.bias coder.delta ++ rest.2) :=
  (if_neg (lt_irrefl _)).trans (if_pos rfl)

/-- **A pass writes its insertions**, for a reader who is as far behind as the coder counts. -/
lemma pass_written (hdelta : coder.delta + i = (coder.n - n₀) * (coder.h + 1) + j)
    (hn : n₀ ≤ coder.n) (hb : b ≤ coder.h) (hcount : coder.h = j + input.countP (· < coder.n)) :
    ∃ n₁ i₁, n₁ ≤ coder.n ∧ (pass b coder input).1.n = coder.n + 1 ∧
      b ≤ (pass b coder input).1.h ∧
      (pass b coder input).1.h = j + input.countP (· < coder.n + 1) ∧
      (pass b coder input).1.delta + i₁ =
        (coder.n + 1 - n₁) * ((pass b coder input).1.h + 1) ∧
      ∀ more, written n₀ i coder.h coder.bias (coder.h = b)
          (passSteps coder.n j input ++ more) =
        (pass b coder input).2 ++ written n₁ i₁ (pass b coder input).1.h
          (pass b coder input).1.bias ((pass b coder input).1.h = b) more := by
  induction input generalizing coder n₀ i j with
  | nil =>
    refine ⟨n₀, i, hn, rfl, hb, hcount, ?_, fun more => rfl⟩
    have hstep : coder.n + 1 - n₀ = coder.n - n₀ + 1 := by omega
    simp only [List.countP_nil, Nat.add_zero] at hcount
    simp only [pass]
    rw [hstep, Nat.add_mul, Nat.one_mul, Nat.add_right_comm, hdelta, hcount, Nat.add_assoc]
  | cons c input ih =>
    rcases lt_trichotomy c coder.n with hlt | rfl | hgt
    · rw [countP_cons_of_lt hlt] at hcount
      rw [pass_of_lt hlt, countP_cons_of_lt (Nat.lt_add_one_of_lt hlt), passSteps_cons, if_pos hlt]
      have hnext := @ih n₀ i (j + 1) { coder with delta := coder.delta + 1 }
        (by simp only; omega) hn hb (by simp only; omega)
      simpa only [Nat.add_assoc, Nat.add_comm 1] using hnext
    · rw [countP_cons_of_le le_rfl] at hcount
      have hwait : (coder.n - n₀) * (coder.h + 1) + j - i = coder.delta := by omega
      have hlater : (decide (coder.h + 1 = b)) = false := decide_eq_false (by omega)
      obtain ⟨n₁, i₁, hn₁, hpn, hpb, hph, hpdelta, hmore⟩ := @ih coder.n (j + 1) (j + 1)
        ⟨coder.n, 0, adapt coder.delta (coder.h + 1) (coder.h = b), coder.h + 1⟩ (by simp) le_rfl
        (by simp only; omega) (by simp only; omega)
      rw [pass_of_eq, countP_cons_of_lt (Nat.lt_add_one _), passSteps_cons, if_neg (lt_irrefl _),
        if_pos rfl]
      refine ⟨n₁, i₁, hn₁, hpn, hpb, by simp only at hph ⊢; omega, hpdelta, fun more => ?_⟩
      rw [List.cons_append, written, hwait, ← hlater, List.append_assoc]
      exact congrArg (integerDigits coder.bias coder.delta ++ ·) (hmore more)
    · rw [countP_cons_of_le hgt.le] at hcount
      rw [pass_of_gt hgt, countP_cons_of_le (by omega), passSteps_cons, if_neg hgt.not_gt,
        if_neg hgt.ne']
      exact ih hdelta hn hb hcount

/-- What the next character of a text is. -/
lemma min_spec (h : (input.filter (n ≤ ·)).min? = some m) :
    m ∈ input ∧ n ≤ m ∧ ∀ c ∈ input, c < m → c < n := by
  obtain ⟨hmem, hmin⟩ := List.min?_eq_some_iff.mp h
  rw [List.mem_filter, decide_eq_true_eq] at hmem
  refine ⟨hmem.1, hmem.2, fun c hc hlt => ?_⟩
  by_contra hge
  have hle := hmin c (List.mem_filter.mpr ⟨hc, decide_eq_true (not_lt.mp hge)⟩)
  omega

/-- No character is skipped on the way to the next one. -/
lemma filter_lt_min (h : (input.filter (n ≤ ·)).min? = some m) :
    input.filter (· < m) = input.filter (· < n) := by
  obtain ⟨-, hle, hmin⟩ := min_spec h
  refine List.filter_congr fun c hc => ?_
  rw [decide_eq_decide]
  exact ⟨hmin c hc, fun hlt => hlt.trans_le hle⟩

lemma countP_lt_min (h : (input.filter (n ≤ ·)).min? = some m) :
    input.countP (· < m) = input.countP (· < n) := by
  rw [List.countP_eq_length_filter, List.countP_eq_length_filter, filter_lt_min h]

/-- **The coder writes the insertions** that are left. -/
lemma passes_written (hdelta : coder.delta + i = (coder.n - n₀) * (coder.h + 1))
    (hn : n₀ ≤ coder.n) (hb : b ≤ coder.h) (hcount : coder.h = input.countP (· < coder.n)) :
    passes b input fuel coder =
      written n₀ i coder.h coder.bias (coder.h = b) (allSteps input fuel coder.n) := by
  induction fuel generalizing coder n₀ i with
  | zero => rfl
  | succ fuel ih =>
    rw [passes, allSteps_succ]
    cases hmin : (input.filter (coder.n ≤ ·)).min? with
    | none => rfl
    | some m =>
      obtain ⟨-, hle, -⟩ := min_spec hmin
      have hskip : coder.delta + (m - coder.n) * (coder.h + 1) + i =
          (m - n₀) * (coder.h + 1) + 0 := by
        have hsum : m - n₀ = (m - coder.n) + (coder.n - n₀) := by omega
        rw [hsum, Nat.add_mul]
        omega
      obtain ⟨n₁, i₁, hn₁, hpn, hpb, hph, hpdelta, hmore⟩ := @pass_written b n₀ i 0
        { coder with n := m, delta := coder.delta + (m - coder.n) * (coder.h + 1) } input hskip
        (hn.trans hle) hb (by simp only [countP_lt_min hmin]; omega)
      simp only at hpn hpdelta hph hmore ⊢
      rw [hmore, ← hpn]
      congr 1
      refine ih ?_ ?_ hpb ?_
      · rwa [hpn]
      · rw [hpn]
        exact Nat.le_succ_of_le hn₁
      · rw [hph, hpn, Nat.zero_add]

lemma encode_eq_written (input : List ℕ) :
    encode input = input.filter (· < initialN) ++
      (if input.filter (· < initialN) = [] then [] else [delimiter]) ++
      (written initialN 0 (input.countP (· < initialN)) initialBias true
        (allSteps input input.length initialN)).map digitUnit := by
  have hwritten := @passes_written (input.countP (· < initialN)) initialN 0 input.length
    ⟨initialN, 0, initialBias, input.countP (· < initialN)⟩ input (by simp) le_rfl le_rfl rfl
  simp only [decide_true] at hwritten
  rw [encode, ← List.countP_eq_length_filter, hwritten]

/-! ### The insertions build the text -/

lemma insertAll_passSteps :
    insertAll (front ++ input.filter (· < n)) (passSteps n front.length input) =
      front ++ input.filter (· < n + 1) := by
  induction input generalizing front with
  | nil => rfl
  | cons c input ih =>
    have hnext : (front ++ [c]).length = front.length + 1 := List.length_append
    have hback := @ih (front ++ [c])
    rw [hnext, List.append_assoc, List.append_assoc, List.singleton_append,
      List.singleton_append] at hback
    rw [passSteps_cons]
    rcases lt_trichotomy c n with hlt | rfl | hgt
    · have hsucc : c < n + 1 := Nat.lt_add_one_of_lt hlt
      rw [if_pos hlt, List.filter_cons_of_pos (by simpa using hlt),
        List.filter_cons_of_pos (by simpa using hsucc), hback]
    · rw [if_neg (lt_irrefl c), if_pos rfl, List.filter_cons_of_neg (by simp),
        List.filter_cons_of_pos (by simp), insertAll_cons, insertAt, List.take_left,
        List.drop_left, hback]
    · rw [if_neg hgt.not_gt, if_neg hgt.ne', List.filter_cons_of_neg (by simpa using hgt.le),
        List.filter_cons_of_neg (by simpa using Nat.succ_le_of_lt hgt), ih]

lemma ordered_passSteps (hn : n₀ < n ∨ n₀ = n ∧ i ≤ j)
    (hlength : length = j + input.countP (· < n))
    (hmore : ∀ n' i', n' ≤ n → Ordered n' i' (j + input.countP (· < n + 1)) more) :
    Ordered n₀ i length (passSteps n j input ++ more) := by
  induction input generalizing n₀ i j length with
  | nil =>
    rw [hlength]
    exact hmore n₀ i (hn.elim le_of_lt fun h => h.1.le)
  | cons c input ih =>
    rw [passSteps_cons]
    rcases lt_trichotomy c n with hlt | rfl | hgt
    · rw [countP_cons_of_lt hlt] at hlength
      rw [countP_cons_of_lt (Nat.lt_add_one_of_lt hlt)] at hmore
      rw [if_pos hlt]
      refine ih (hn.imp_right fun h => ⟨h.1, Nat.le_succ_of_le h.2⟩) (by omega) ?_
      intro n' i' h
      rw [Nat.add_right_comm, Nat.add_assoc]
      exact hmore n' i' h
    · rw [countP_cons_of_le le_rfl] at hlength
      rw [countP_cons_of_lt (Nat.lt_add_one c)] at hmore
      rw [if_neg (lt_irrefl c), if_pos rfl]
      refine ⟨hn, by omega, ih (.inr ⟨rfl, le_rfl⟩) (by omega) ?_⟩
      intro n' i' h
      rw [Nat.add_right_comm, Nat.add_assoc]
      exact hmore n' i' h
    · rw [countP_cons_of_le hgt.le] at hlength
      rw [countP_cons_of_le hgt] at hmore
      rw [if_neg hgt.not_gt, if_neg hgt.ne']
      exact ih hn hlength hmore

/-- **The insertions are in order.** -/
theorem ordered_allSteps (hn : n₀ < n ∨ n₀ = n ∧ i = 0) :
    Ordered n₀ i (input.countP (· < n)) (allSteps input fuel n) := by
  induction fuel generalizing n₀ i n with
  | zero => exact trivial
  | succ fuel ih =>
    rw [allSteps_succ]
    cases hmin : (input.filter (n ≤ ·)).min? with
    | none => exact trivial
    | some m =>
      obtain ⟨-, hle, -⟩ := min_spec hmin
      have hm : n₀ < m ∨ n₀ = m ∧ i ≤ 0 := by omega
      refine ordered_passSteps hm (by rw [← countP_lt_min hmin, Nat.zero_add]) ?_
      intro n' i' h
      rw [Nat.zero_add]
      exact ih (.inl (Nat.lt_add_one_of_le h))

/-- **The insertions build the text** from its smaller characters. -/
theorem insertAll_allSteps (hfuel : input.countP (n ≤ ·) ≤ fuel) :
    insertAll (input.filter (· < n)) (allSteps input fuel n) = input := by
  induction fuel generalizing n with
  | zero =>
    have hall : ∀ c ∈ input, c < n := by
      simpa [List.countP_eq_zero] using hfuel
    exact List.filter_eq_self.mpr (by simpa using hall)
  | succ fuel ih =>
    rw [allSteps_succ]
    cases hmin : (input.filter (n ≤ ·)).min? with
    | none =>
      have hnone : input.filter (n ≤ ·) = [] := List.min?_eq_none_iff.mp hmin
      refine List.filter_eq_self.mpr fun c hc => ?_
      have hlt := List.filter_eq_nil_iff.mp hnone c hc
      simpa using hlt
    | some m =>
      obtain ⟨hmem, hle, -⟩ := min_spec hmin
      have hpass := @insertAll_passSteps m input []
      rw [List.length_nil, List.nil_append, List.nil_append] at hpass
      have hfewer : input.countP (m + 1 ≤ ·) < input.countP (n ≤ ·) := by
        obtain ⟨left, right, hsplit⟩ := List.append_of_mem hmem
        have hmono : ∀ l : List ℕ, l.countP (m + 1 ≤ ·) ≤ l.countP (n ≤ ·) := fun l =>
          List.countP_mono_left fun c _ h => by
            simp only [decide_eq_true_eq] at h ⊢
            omega
        have hleft := hmono left
        have hright := hmono right
        rw [hsplit, List.countP_append, List.countP_append,
          List.countP_cons_of_neg (by simp), List.countP_cons_of_pos (by simpa using hle)]
        omega
      rw [insertAll_append, ← filter_lt_min hmin, hpass]
      exact ih (by omega)

end Workbench.Lib.Bootstring
