import Workbench.Lib.NumberText

/-!
Integers as JavaScript numbers: rounding to 53 binary digits, `String(n)` and `Number(text)`.

A number is written with as few digits as name it, so what is written may stand for another integer,
but the number nearest to that integer is the one that was written.
-/

namespace Workbench.Lib.Double

open NumberText

/-- `num / den` rounded to an integer, a half to the even one. -/
def halfEven (num den : ℕ) : ℕ :=
  let whole := num / den
  let rest := num % den
  if 2 * rest < den then whole else if den < 2 * rest then whole + 1 else whole + whole % 2

/-- How many binary digits a number has. -/
def size (n : ℕ) : ℕ := if n = 0 then 0 else n.log2 + 1

/-- The number nearest to `num / den`, if that is an integer. -/
def nearest (num den : ℕ) : Option ℕ :=
  let bits := size (num / den)
  if 2 * num < den then
    -- there are fractions down to half of the smallest one
    if num * 2 ^ 1075 ≤ den then some 0 else none
  else if bits ≤ 53 then
    let parts := 2 ^ (53 - bits)
    let m := halfEven (num * parts) den
    if m % parts = 0 then some (m / parts) else none
  else
    let unit := 2 ^ (bits - 53)
    let value := halfEven num (den * unit) * unit
    -- beyond that there is only infinity
    if value < 2 ^ 1024 then some value else none

/-- The integer is a number as it stands. -/
def IsNumber (n : ℕ) : Prop := nearest n 1 = some n

instance : DecidablePred IsNumber := fun n => inferInstanceAs (Decidable (nearest n 1 = some n))

/-! ### `String(n)` -/

/-- The multiples of `unit` around a number, the closer one first. -/
def around (n unit : ℕ) : List ℕ :=
  let closer := halfEven n unit
  if closer = n / unit then [n / unit, n / unit + 1] else [closer, n / unit]

/-- The fewest digits that name a number, and how many zeros follow them. -/
def shortestFrom (n : ℕ) : ℕ → ℕ × ℕ
  | 0 => (n, 0)
  | zeros + 1 =>
    let unit := 10 ^ (zeros + 1)
    match (around n unit).find? fun s => 0 < s && nearest (s * unit) 1 = some n with
    | some s => (s, zeros + 1)
    | none => shortestFrom n zeros

def shortest (n : ℕ) : ℕ × ℕ := shortestFrom n (digits n).length

/-- A numeral with an exponent, from its digits. -/
def exponentForm (ds : List Char) (exponent : ℕ) : List Char :=
  match ds with
  | [] => []
  | [d] => d :: 'e' :: '+' :: digits exponent
  | d :: rest => d :: '.' :: (rest ++ 'e' :: '+' :: digits exponent)

/-- `String(n)` -/
def numberText (n : ℕ) : List Char :=
  let (s, zeros) := shortest n
  let length := (digits s).length + zeros
  if length ≤ 21 then digits s ++ List.replicate zeros '0'
  else exponentForm (digits s) (length - 1)

/-! ### `Number(text)` -/

/-- The digits of an unsigned decimal numeral, and the power of ten they are taken times. -/
def decimalParts (cs : List Char) : Option (ℕ × ℤ) :=
  let isExponent := fun c => c = 'e' ∨ c = 'E'
  let mantissa := cs.takeWhile fun c => ¬ isExponent c
  let whole := mantissa.takeWhile (· ≠ '.')
  let fraction := (mantissa.dropWhile (· ≠ '.')).drop 1
  match digitsOf 10 (whole ++ fraction), exponentOf (cs.dropWhile fun c => ¬ isExponent c) with
  | some ds, some exponent => some (ds, exponent - fraction.length)
  | _, _ => none

def nearestScaled (ds : ℕ) (scale : ℤ) : Option ℕ :=
  if 0 ≤ scale then nearest (ds * 10 ^ scale.toNat) 1 else nearest ds (10 ^ (-scale).toNat)

def signedNumberOf (cs : List Char) : Option ℤ := do
  let (negative, cs) := signOf cs
  let (ds, scale) ← decimalParts cs
  let n ← nearestScaled ds scale
  some (if negative then -(n : ℤ) else n)

def radixNumberOf (base : ℕ) (cs : List Char) : Option ℤ := do
  let ds ← digitsOf base cs
  let n ← nearest ds 1
  some (n : ℤ)

/-- The integer that `Number(text)` is, if it is one. -/
def numberOf (text : List Char) : Option ℤ :=
  match trim text with
  | [] => some 0
  | '0' :: 'x' :: cs | '0' :: 'X' :: cs => radixNumberOf 16 cs
  | '0' :: 'o' :: cs | '0' :: 'O' :: cs => radixNumberOf 8 cs
  | '0' :: 'b' :: cs | '0' :: 'B' :: cs => radixNumberOf 2 cs
  | cs => signedNumberOf cs

variable {n m s zeros exponent : ℕ} {ds : List Char}

/-! ### Rounding -/

lemma halfEven_one (n : ℕ) : halfEven n 1 = n := by
  unfold halfEven
  simp [Nat.mod_one]

lemma div_le_halfEven (num den : ℕ) : num / den ≤ halfEven num den := by
  unfold halfEven
  simp only
  split_ifs <;> omega

lemma size_le {k : ℕ} (h : n < 2 ^ k) : size n ≤ k := by
  unfold size
  split_ifs with hn
  · exact Nat.zero_le k
  · exact (Nat.log2_lt hn).mpr h

lemma lt_size {k : ℕ} (h : 2 ^ k ≤ n) : k < size n := by
  have hn : n ≠ 0 := by
    have hpos := Nat.two_pow_pos k
    omega
  unfold size
  rw [if_neg hn]
  have hlog := (Nat.le_log2 hn).mpr h
  omega

/-- **Small integers are numbers.** -/
theorem nearest_of_lt (h : n < 2 ^ 53) : nearest n 1 = some n := by
  have hsize : size n ≤ 53 := size_le h
  have hpos := Nat.two_pow_pos (53 - size n)
  unfold nearest
  simp only [Nat.div_one, halfEven_one, if_pos hsize, Nat.mul_mod_left, if_true,
    Nat.mul_div_cancel _ hpos]
  by_cases hn : n = 0
  · rw [hn, if_pos (by decide), Nat.zero_mul, if_pos (by decide)]
  · rw [if_neg (by omega)]

/-- A large integer is not rounded to a small number. -/
lemma le_of_nearest (h : nearest n 1 = some m) (hn : 2 ^ 53 ≤ n) : 2 ^ 53 ≤ m := by
  have hsize : ¬ size n ≤ 53 := not_le.mpr (lt_size hn)
  have hn0 : n ≠ 0 := by omega
  have hhalf : ¬ 2 * n < 1 := by omega
  unfold nearest at h
  simp only [Nat.div_one, if_neg hhalf, if_neg hsize, one_mul] at h
  split_ifs at h
  obtain rfl := Option.some.inj h
  obtain ⟨k, hk⟩ : ∃ k, size n = 54 + k := ⟨size n - 54, by omega⟩
  have hlow : 2 ^ (53 + k) ≤ n := by
    have hlog : n.log2 = 53 + k := by
      unfold size at hk
      rw [if_neg hn0] at hk
      omega
    exact hlog ▸ Nat.log2_self_le hn0
  have hunit : size n - 53 = k + 1 := by omega
  have hquotient : 2 ^ 52 ≤ n / 2 ^ (k + 1) := by
    rw [Nat.le_div_iff_mul_le (Nat.two_pow_pos _), ← Nat.pow_add]
    have hexp : 52 + (k + 1) = 53 + k := by omega
    rwa [hexp]
  rw [hunit]
  calc 2 ^ 53 = 2 ^ 52 * 2 := Nat.pow_succ 2 52
    _ ≤ halfEven n (2 ^ (k + 1)) * 2 ^ (k + 1) :=
      Nat.mul_le_mul (hquotient.trans (div_le_halfEven _ _))
        (Nat.le_self_pow (by omega) 2)

/-- Where integers are numbers, nothing else is rounded to one of them. -/
lemma eq_of_nearest (h : nearest n 1 = some m) (hm : m < 2 ^ 53) : n = m := by
  by_cases hn : n < 2 ^ 53
  · rw [nearest_of_lt hn] at h
    exact Option.some.inj h
  · exact absurd (le_of_nearest h (not_lt.mp hn)) (not_le.mpr hm)

/-! ### The digits that are written -/

lemma of_shortestFrom {k : ℕ} (h : IsNumber n) (hn : 0 < n) (hs : shortestFrom n k = (s, zeros)) :
    0 < s ∧ nearest (s * 10 ^ zeros) 1 = some n := by
  induction k with
  | zero =>
    obtain ⟨rfl, rfl⟩ := Prod.mk.inj hs
    exact ⟨hn, by rwa [Nat.pow_zero, Nat.mul_one]⟩
  | succ k ih =>
    rw [shortestFrom] at hs
    cases hfind : (around n (10 ^ (k + 1))).find?
        fun s => 0 < s && nearest (s * 10 ^ (k + 1)) 1 = some n with
    | none =>
      simp only [hfind] at hs
      exact ih hs
    | some t =>
      simp only [hfind, Prod.mk.injEq] at hs
      obtain ⟨rfl, rfl⟩ := hs
      simpa using List.find?_some hfind

/-- What is written stands for an integer to which the number is the nearest. -/
lemma of_shortest (h : IsNumber n) (hn : 0 < n) (hs : shortest n = (s, zeros)) :
    0 < s ∧ nearest (s * 10 ^ zeros) 1 = some n :=
  of_shortestFrom h hn hs

lemma digits_mul_pow (hs : 0 < s) (zeros : ℕ) :
    digits (s * 10 ^ zeros) = digits s ++ List.replicate zeros '0' := by
  induction zeros with
  | zero => simp
  | succ zeros ih =>
    have hpos : 0 < s * 10 ^ zeros := Nat.mul_pos hs (Nat.pow_pos (by decide))
    have hten : s * 10 ^ (zeros + 1) = s * 10 ^ zeros * 10 := by rw [Nat.pow_succ, Nat.mul_assoc]
    have hlarge : 10 ≤ s * 10 ^ (zeros + 1) := by omega
    rw [digits, Nat.toDigits_of_base_le (by decide) hlarge, ← digits, hten,
      Nat.mul_div_cancel _ (by decide), Nat.mul_mod_left, ih, List.append_assoc,
      List.replicate_succ']
    rfl

/-! ### Reading what was written -/

/-- The parts of a numeral that is taken apart as it should be. -/
lemma decimalParts_append (mantissa behind : List Char) {whole fraction : List Char}
    {exponent : ℤ} (hmantissa : ∀ c ∈ mantissa, c ≠ 'e' ∧ c ≠ 'E')
    (hbehind : ∀ c ∈ behind.head?, c = 'e') (hwhole : mantissa.takeWhile (· ≠ '.') = whole)
    (hfraction : (mantissa.dropWhile (· ≠ '.')).drop 1 = fraction)
    (hds : digitsOf 10 (whole ++ fraction) = some n)
    (hexponent : exponentOf behind = some exponent) :
    decimalParts (mantissa ++ behind) = some (n, exponent - fraction.length) := by
  have hall : ∀ c ∈ mantissa, (decide ¬(c = 'e' ∨ c = 'E')) = true := fun c hc => by
    simp [hmantissa c hc]
  have htake :
      (mantissa ++ behind).takeWhile (fun c => decide ¬(c = 'e' ∨ c = 'E')) = mantissa := by
    rw [List.takeWhile_append_of_pos hall]
    cases behind with
    | nil => simp
    | cons c behind => simp [hbehind c rfl]
  have hdrop : (mantissa ++ behind).dropWhile (fun c => decide ¬(c = 'e' ∨ c = 'E')) = behind := by
    rw [List.dropWhile_append_of_pos hall]
    cases behind with
    | nil => rfl
    | cons c behind => simp [hbehind c rfl]
  simp only [decimalParts, htake, hdrop, hwhole, hfraction, hds, hexponent]

lemma isTrimmed_of_mem_digits : ∀ c ∈ digits n, isTrimmed c = false := fun _ hc =>
  isTrimmed_of_isDigit (isDigit_of_mem_digits hc)

lemma isTrimmed_of_mem_exponentForm (s exponent : ℕ) :
    ∀ c ∈ exponentForm (digits s) exponent, isTrimmed c = false := by
  have hdigits : ∀ c ∈ digits s, isTrimmed c = false := isTrimmed_of_mem_digits
  have hexponent : ∀ c ∈ 'e' :: '+' :: digits exponent, isTrimmed c = false := by
    intro c hc
    rcases List.mem_cons.mp hc with rfl | hc
    · decide
    rcases List.mem_cons.mp hc with rfl | hc
    · decide
    · exact isTrimmed_of_mem_digits c hc
  rcases hs : digits s with _ | ⟨d, _ | ⟨d', rest⟩⟩
  · simp [exponentForm]
  · rw [hs] at hdigits
    exact List.forall_mem_cons.mpr ⟨hdigits d (by simp), hexponent⟩
  · rw [hs] at hdigits
    obtain ⟨hd, hrest⟩ := List.forall_mem_cons.mp hdigits
    refine List.forall_mem_cons.mpr ⟨hd, List.forall_mem_cons.mpr ⟨by decide, ?_⟩⟩
    intro c hc
    rcases List.mem_append.mp hc with hc | hc
    · exact hrest c hc
    · exact hexponent c hc

lemma of_isDigit {c : Char} (hc : c.isDigit) : (c ≠ 'e' ∧ c ≠ 'E') ∧ c ≠ '.' := by
  refine ⟨⟨?_, ?_⟩, ?_⟩ <;> rintro rfl <;> exact absurd hc (by decide)

lemma decimalParts_digits (n : ℕ) : decimalParts (digits n) = some (n, 0) := by
  have hdigits : ∀ c ∈ digits n, c.isDigit := fun c hc => isDigit_of_mem_digits hc
  obtain ⟨hwhole, hrest⟩ := takeWhile_digits (p := (· ≠ '.'))
    (fun c hc => decide_eq_true (of_isDigit hc).2) n
  have hparts := decimalParts_append (digits n) []
    (fun c hc => (of_isDigit (hdigits c hc)).1) (by simp) hwhole (congrArg (List.drop 1) hrest)
    (by rw [List.drop_nil, List.append_nil, digitsOf_digits]) rfl
  simpa using hparts

/-- The parts of a numeral with an exponent. -/
lemma decimalParts_exponentForm (s exponent : ℕ) :
    decimalParts (exponentForm (digits s) exponent) =
      some (s, (exponent : ℤ) - ((digits s).length - 1 : ℕ)) := by
  have hdigits : ∀ c ∈ digits s, c.isDigit := fun c hc => isDigit_of_mem_digits hc
  have hvalue := digitsOf_digits s
  have hbehind : exponentOf ('e' :: '+' :: digits exponent) = some (exponent : ℤ) := by
    simp [exponentOf, signOf, digitsOf_digits]
  rcases hs : digits s with _ | ⟨d, _ | ⟨d', rest⟩⟩
  · exact absurd hs (digits_ne_nil s)
  · rw [hs] at hdigits hvalue
    have hd := of_isDigit (hdigits d (by simp))
    have hparts := decimalParts_append [d] _ (by simpa using hd.1) (by simp)
      (List.takeWhile_cons_of_pos (by simpa using hd.2))
      (congrArg (List.drop 1) (List.dropWhile_cons_of_pos (by simpa using hd.2)))
      (by simpa using hvalue) hbehind
    simpa [exponentForm] using hparts
  · rw [hs] at hdigits hvalue
    have hd := of_isDigit (hdigits d (by simp))
    have hmantissa : ∀ c ∈ d :: '.' :: d' :: rest, c ≠ 'e' ∧ c ≠ 'E' := by
      intro c hc
      rcases List.mem_cons.mp hc with rfl | hc
      · exact hd.1
      rcases List.mem_cons.mp hc with rfl | hc
      · decide
      · exact (of_isDigit (hdigits c (List.mem_cons_of_mem d hc))).1
    have hparts := decimalParts_append (d :: '.' :: d' :: rest) _ hmantissa (by simp)
      (List.takeWhile_cons_of_pos (by simpa using hd.2))
      (congrArg (List.drop 1) (List.dropWhile_cons_of_pos (by simpa using hd.2)))
      (by simpa using hvalue) hbehind
    simpa [exponentForm] using hparts

/-- A numeral that does not begin with a zero is a decimal one. -/
lemma numberOf_eq_signed {cs : List Char} {d : Char} (htrim : trim (d :: cs) = d :: cs)
    (hd : d.isDigit) (hzero : d ≠ '0') {parts : ℕ × ℤ}
    (hparts : decimalParts (d :: cs) = some parts)
    (hnearest : nearestScaled parts.1 parts.2 = some n) : numberOf (d :: cs) = some (n : ℤ) := by
  have hsign : signOf (d :: cs) = (false, d :: cs) := by
    unfold signOf
    split
    · next heq =>
      obtain ⟨rfl, -⟩ := List.cons.inj heq
      exact absurd hd (by decide)
    · next heq =>
      obtain ⟨rfl, -⟩ := List.cons.inj heq
      exact absurd hd (by decide)
    · rfl
  have hsigned : signedNumberOf (d :: cs) = some (n : ℤ) := by
    simp [signedNumberOf, hsign, hparts, hnearest]
  unfold numberOf
  rw [htrim]
  split
  · next heq => cases heq
  all_goals
    first
    | exact hsigned
    | next heq => exact absurd (List.cons.inj heq).1 hzero

lemma exists_head_digits (hs : 0 < s) : ∃ d rest, digits s = d :: rest ∧ d.isDigit ∧ d ≠ '0' := by
  obtain ⟨d, rest, hds⟩ := List.exists_cons_of_ne_nil (digits_ne_nil s)
  refine ⟨d, rest, hds, isDigit_of_mem_digits (n := s) (by simp [hds]), ?_⟩
  rintro rfl
  have hzero := eq_zero_of_head_digits (n := s) (by rw [hds]; rfl)
  omega

/-- A numeral without an exponent is read as the number nearest to it. -/
lemma numberOf_digits (hn : 0 < n) (h : nearest n 1 = some m) :
    numberOf (digits n) = some (m : ℤ) := by
  obtain ⟨d, rest, hds, hd, hzero⟩ := exists_head_digits hn
  have htrim : trim (digits n) = digits n :=
    trim_eq_self (bare_of_all isTrimmed_of_mem_digits)
  have hparts := decimalParts_digits n
  rw [hds] at htrim hparts ⊢
  exact numberOf_eq_signed htrim hd hzero hparts (by simpa [nearestScaled] using h)

lemma numberText_zero : numberText 0 = ['0'] := by decide +kernel

/-- **`Number(String(n))` is `n`.** -/
theorem numberOf_numberText (h : IsNumber n) : numberOf (numberText n) = some (n : ℤ) := by
  rcases Nat.eq_zero_or_pos n with rfl | hn
  · rw [numberText_zero]
    decide +kernel
  obtain ⟨⟨s, zeros⟩, hshort⟩ : ∃ parts, shortest n = parts := ⟨_, rfl⟩
  obtain ⟨hs, hnearest⟩ := of_shortest h hn hshort
  simp only [numberText, hshort]
  split_ifs with hlength
  · rw [← digits_mul_pow hs]
    exact numberOf_digits (Nat.mul_pos hs (Nat.pow_pos (by decide))) hnearest
  · obtain ⟨d, rest, hds, hd, hzero⟩ := exists_head_digits hs
    have hparts := decimalParts_exponentForm s ((digits s).length + zeros - 1)
    have hscale : (((digits s).length + zeros - 1 : ℕ) : ℤ) - ((digits s).length - 1 : ℕ) =
        zeros := by
      have hpos : 0 < (digits s).length := List.length_pos_iff.mpr (digits_ne_nil s)
      omega
    rw [hscale] at hparts
    obtain ⟨more, hform⟩ : ∃ more,
        exponentForm (digits s) ((digits s).length + zeros - 1) = d :: more := by
      rw [hds]
      cases rest <;> exact ⟨_, rfl⟩
    have htrim := trim_eq_self (bare_of_all (isTrimmed_of_mem_exponentForm s
      ((digits s).length + zeros - 1)))
    rw [hform] at htrim hparts ⊢
    refine numberOf_eq_signed htrim hd hzero hparts ?_
    simpa [nearestScaled] using hnearest

/-- Small numbers are written with all their digits. -/
lemma numberText_of_lt (hn : n < 2 ^ 53) : numberText n = digits n := by
  rcases Nat.eq_zero_or_pos n with rfl | hpos
  · exact numberText_zero
  obtain ⟨⟨s, zeros⟩, hshort⟩ : ∃ parts, shortest n = parts := ⟨_, rfl⟩
  obtain ⟨hs, hnearest⟩ := of_shortest (nearest_of_lt hn) hpos hshort
  have hvalue : s * 10 ^ zeros = n := eq_of_nearest hnearest hn
  have htext : digits s ++ List.replicate zeros '0' = digits n := by
    rw [← digits_mul_pow hs, hvalue]
  have hlength : (digits s).length + zeros = (digits n).length := by
    rw [← htext, List.length_append, List.length_replicate]
  have hshortText : (digits n).length ≤ 21 :=
    (Nat.length_toDigits_le_iff (by decide) (by decide)).mpr (lt_trans hn (by decide))
  simp only [numberText, hshort, hlength, if_pos hshortText, htext]

end Workbench.Lib.Double
